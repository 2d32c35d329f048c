import BotScript.Proofs.QuietSteps

namespace BotScript

/-!
# Targets of jumps

A jump is accepted only inside of a loop or a switch that takes it.  So every
jump of a compiled function has a target among the loops and switches around it,
and the body of a function with a result always leaves it.
-/

/-- A jump out of a loop or switch, or to the next round of a loop. -/
structure Jump where
  label : Option String
  isContinue : Bool
  deriving Repr, DecidableEq, Inhabited

/--
Whether a loop or switch takes a jump: with a label, a loop with the label does,
and without one, every loop does, and a switch if it is left.
-/
def Breakable.takes (breakable : Breakable) (jump : Jump) : Bool :=
  match jump.label with
  | some name => breakable.label == some name
  | none => breakable.isLoop || !jump.isContinue

/-- Whether one of the loops and switches takes a jump. -/
def Jump.Aims (jump : Jump) (breakables : List Breakable) : Prop :=
  ∃ breakable ∈ breakables, breakable.takes jump = true

namespace Scope

/-- A block is no target of jumps. -/
theorem breakables_pushBlock (scope : Scope) : scope.pushBlock.breakables = scope.breakables := by
  cases scope with | mk owner hasThis function => cases function <;> rfl

/-- The targets of jumps are the same behind a block. -/
theorem breakables_popBlock (scope : Scope) : scope.popBlock.breakables = scope.breakables := by
  cases scope with | mk owner hasThis function => cases function <;> rfl

/-- The innermost target of jumps is left. -/
theorem breakables_popBreakable (scope : Scope) :
    scope.popBreakable.breakables = scope.breakables.tail := by
  cases scope with | mk owner hasThis function => cases function <;> rfl

/-- A loop or switch that is entered is the innermost target of jumps, inside of a function. -/
theorem breakables_push
    (scope : Scope)
    (breakable : Breakable) :
    (scope.inFunction fun function =>
        { function with breakables := breakable :: function.breakables }).breakables ⊆
      breakable :: scope.breakables ∧
    (scope.inFunction fun function =>
        { function with breakables := breakable :: function.breakables }).breakables.tail =
      scope.breakables := by
  cases scope with
  | mk owner hasThis function =>
      cases function with
      | none => exact ⟨List.nil_subset _, rfl⟩
      | some function => exact ⟨List.Subset.refl _, rfl⟩

end Scope

/-- A jump that is accepted has a target. -/
theorem Scope.checkJump_aims
    {scope : Scope}
    {label : Option String}
    {isContinue : Bool}
    (checked : scope.checkJump label isContinue = .ok ()) :
    Jump.Aims ⟨label, isContinue⟩ scope.breakables := by
  unfold Scope.checkJump at checked
  cases label with
  | some name =>
      dsimp only at checked
      split at checked
      · next found => exact List.any_eq_true.mp found
      · cases checked
  | none =>
      dsimp only at checked
      split at checked
      · next found => exact List.any_eq_true.mp found
      · cases checked

/-! ## Jumps in statements -/

namespace StmtKind

/-- The jump of a statement that consists of one. -/
def jump? : StmtKind → Option Jump
  | .breakTo label => some ⟨label, false⟩
  | .continueTo label => some ⟨label, true⟩
  | _ => none

/-- What a loop or a switch is to the jumps inside of it. -/
def breakable? : StmtKind → Option Breakable
  | .whileLoop label _ _ | .doLoop label _ _ | .forLoop label _ _ _ _
  | .repeatLoop label _ _ => some ⟨label, true⟩
  | .switchOn _ _ _ => some ⟨none, false⟩
  | _ => none

/-- The statements at the start of a counting loop. -/
def starts : StmtKind → List StmtId
  | .forLoop _ initial _ _ _ => initial
  | _ => []

/-- Whether a statement evaluates an expression or declares a variable. -/
def isElementary : StmtKind → Bool
  | .expression _ | .declare _ _ _ => true
  | _ => false

/-- A statement that evaluates an expression or declares a variable has no parts. -/
theorem childStmts_of_isElementary
    {kind : StmtKind}
    (plain : kind.isElementary = true) :
    kind.childStmts = [] ∧ kind.jump? = none ∧ kind.starts = [] := by
  cases kind <;> first | exact ⟨rfl, rfl, rfl⟩ | cases plain

end StmtKind

namespace Tree

/--
A statement inside of some loops and switches, the innermost first, of which every
jump has a target.  A counting loop starts with statements that do not jump.
-/
inductive Targeted (tree : Tree) : List Breakable → StmtId → Prop where
  | intro
      {breakables : List Breakable}
      {id : StmtId} :
      (∀ jump, (tree.stmt id).kind.jump? = some jump → jump.Aims breakables) →
      (∀ part ∈ (tree.stmt id).kind.starts, (tree.stmt part).kind.isElementary = true) →
      (∀ part ∈ (tree.stmt id).kind.childStmts,
        Targeted tree ((tree.stmt id).kind.breakable?.toList ++ breakables) part) →
      Targeted tree breakables id

/-- Whether a statement always leaves its function. -/
def Leaves (tree : Tree) (id : StmtId) : Prop :=
  ∃ bound, tree.leavesWithin bound id = true

variable {tree : Tree} {breakables : List Breakable} {id : StmtId}

/-- More loops and switches around a statement are of no harm. -/
theorem Targeted.mono
    (targeted : tree.Targeted breakables id)
    {more : List Breakable}
    (within : breakables ⊆ more) :
    tree.Targeted more id := by
  induction targeted generalizing more with
  | @intro breakables id aims starts _ inductionHypothesis =>
      refine .intro (fun jump isJump => ?_) starts fun part isPart => ?_
      · obtain ⟨breakable, member, takes⟩ := aims jump isJump
        exact ⟨breakable, within member, takes⟩
      · exact inductionHypothesis part isPart (List.append_subset.mpr
          ⟨List.subset_append_left _ _, List.Subset.trans within (List.subset_append_right _ _)⟩)

/-- A statement without parts has no jumps. -/
theorem targeted_of_isElementary
    (plain : (tree.stmt id).kind.isElementary = true) :
    tree.Targeted breakables id := by
  obtain ⟨children, jump, starts⟩ := StmtKind.childStmts_of_isElementary plain
  refine .intro ?_ ?_ ?_
  · rw [jump]
    exact nofun
  · rw [starts]
    exact nofun
  · rw [children]
    exact nofun

/-- A tree has at least some statements, and identifiers for all of its own. -/
structure Completes (tree : Tree) (stmts : Array Stmt) : Prop where
  fits : tree.stmts.size < UInt32.size
  stays : ∀ (index : Nat) node, stmts[index]? = some node → tree.stmts[index]? = some node

/-- A tree completes fewer statements. -/
theorem Completes.mono
    {fewer stmts : Array Stmt}
    (completes : tree.Completes stmts)
    (within : ∀ (index : Nat) node, fewer[index]? = some node → stmts[index]? = some node) :
    tree.Completes fewer :=
  ⟨completes.fits, fun index node found => completes.stays index node (within index node found)⟩

/-- The statement that has been added last keeps its identifier. -/
theorem Completes.stmt_last
    {stmts : Array Stmt}
    {node : Stmt}
    (completes : tree.Completes (stmts.push node)) :
    tree.stmt (Id.ofIndex stmts.size) = node := by
  have found := completes.stays stmts.size node (by simp)
  obtain ⟨inside, -⟩ := Array.getElem?_eq_some_iff.mp found
  rw [Tree.stmt, Tree.stmt?, Id.index_ofIndex (Nat.lt_trans inside completes.fits), found]
  rfl

end Tree

namespace CompileState

/-- Statements are added, and the functions and the targets of jumps are the same. -/
structure Flows (before after : CompileState) : Prop where
  breakables : after.scope.breakables = before.scope.breakables
  stmts :
    ∀ (index : Nat) node,
      before.tree.stmts[index]? = some node → after.tree.stmts[index]? = some node
  functions : after.tree.functions = before.tree.functions

variable {before between after : CompileState} {around : List Breakable} {id : StmtId}

namespace Flows

/-- Nothing has changed. -/
theorem refl (state : CompileState) : Flows state state :=
  ⟨rfl, fun _ _ => id, rfl⟩

/-- The state has changed twice. -/
theorem trans
    (first : Flows before between)
    (second : Flows between after) :
    Flows before after :=
  ⟨second.breakables.trans first.breakables,
    fun index node found => second.stmts index node (first.stmts index node found),
    second.functions.trans first.functions⟩

/-- No statement has been added. -/
theorem ofKept (kept : Kept before after) : Flows before after :=
  ⟨kept.breakables, fun _ _ found => kept.stmts ▸ found, kept.functions⟩

end Flows

/-- Every jump of a statement inside of some loops and switches has a target. -/
def Targets (state : CompileState) (breakables : List Breakable) (id : StmtId) : Prop :=
  ∀ tree : Tree, tree.Completes state.tree.stmts → tree.Targeted breakables id

/-- Every jump of a statement inside of further loops and switches has a target. -/
def Steers (state : CompileState) (around : List Breakable) (id : StmtId) : Prop :=
  state.Targets (around ++ state.scope.breakables) id

/-- A statement evaluates an expression or declares a variable. -/
def Plain (state : CompileState) (id : StmtId) : Prop :=
  ∀ tree : Tree, tree.Completes state.tree.stmts → (tree.stmt id).kind.isElementary = true

/-- The jumps of a statement keep their targets. -/
theorem Steers.mono
    (steers : before.Steers around id)
    (flows : before.Flows after) :
    after.Steers around id := by
  intro tree completes
  rw [flows.breakables]
  exact steers tree (completes.mono flows.stmts)

/-- A statement stays what it is. -/
theorem Plain.mono
    (plain : before.Plain id)
    (flows : before.Flows after) :
    after.Plain id :=
  fun tree completes => plain tree (completes.mono flows.stmts)

/-- A statement without parts has no jumps. -/
theorem Plain.steers
    (plain : before.Plain id) :
    before.Steers around id := by
  exact fun tree completes => Tree.targeted_of_isElementary (plain tree completes)

end CompileState

namespace Compile

open Preserves (andThen repeats)

variable {α β σ : Type} {context : CompileContext} {state : CompileState}

/-! ## Steps that add statements -/

/-- A step adds statements, and its result meets a condition on the state behind it. -/
def Guides
    (context : CompileContext) (state : CompileState)
    (post : CompileState → α → Prop) (step : Compile α) :
    Prop :=
  ∀ value after, step context state = .ok (value, after) → state.Flows after ∧ post after value

/-- A turn of a loop ends it with a result, or goes on with a state, that meets its condition. -/
def Turn.Guided
    (holds : CompileState → σ → Prop) (post : CompileState → α → Prop) (state : CompileState) :
    Turn σ α → Prop
  | .again next => holds state next
  | .done result => post state result

namespace Guides

variable {post : CompileState → β → Prop}

/-- A result that needs no step. -/
theorem pure
    {value : β}
    (holds : post state value) :
    Guides context state post (Pure.pure value) := by
  intro result after runs
  cases runs
  exact ⟨.refl _, holds⟩

/-- A step and what follows it. -/
theorem bind
    {M : CompileState → α → Prop}
    {step : Compile α}
    {next : α → Compile β}
    (first : Guides context state M step)
    (rest : ∀ between value, state.Flows between → M between value →
      Guides context between post (next value)) :
    Guides context state post (step >>= next) := by
  intro result after runs
  obtain ⟨value, between, taken, goesOn⟩ := bind_ok runs
  obtain ⟨flows, holds⟩ := first _ _ taken
  obtain ⟨further, last⟩ := rest between value flows holds _ _ goesOn
  exact ⟨flows.trans further, last⟩

/-- A condition that says less of the result. -/
theorem weaken
    {M : CompileState → β → Prop}
    {step : Compile β}
    (guides : Guides context state M step)
    (holds : ∀ after value, M after value → post after value) :
    Guides context state post step := by
  intro result after runs
  obtain ⟨flows, meets⟩ := guides _ _ runs
  exact ⟨flows, holds _ _ meets⟩

/-- A change of the result. -/
theorem map
    {M : CompileState → α → Prop}
    {change : α → β}
    {step : Compile α}
    (guides : Guides context state M step)
    (holds : ∀ after value, M after value → post after (change value)) :
    Guides context state post (change <$> step) := by
  rw [map_eq_pure_bind]
  exact guides.bind fun after value _ meets => pure (holds after value meets)

/-- What follows a step that adds no statement. -/
theorem behind
    {step : Compile α}
    {next : α → Compile β}
    [quiet : Quiet step]
    (rest : ∀ between value, state.Flows between → Guides context between post (next value)) :
    Guides context state post (step >>= next) := by
  intro result after runs
  obtain ⟨value, between, taken, goesOn⟩ := bind_ok runs
  have flows := CompileState.Flows.ofKept (quiet.kept _ _ _ _ taken)
  obtain ⟨further, last⟩ := rest between value flows _ _ goesOn
  exact ⟨flows.trans further, last⟩

/-- A step that fails. -/
theorem failed
    {code : ErrorCode} :
    Guides context state post (fail code) := by
  intro result after runs
  cases runs

/-- A step that fails, whatever would follow. -/
theorem failedThen
    {code : ErrorCode}
    {next : α → Compile β} :
    Guides context state post (fail code >>= next) := by
  intro result after runs
  obtain ⟨_, _, taken, -⟩ := bind_ok runs
  cases taken

/-- A step that fails at a place, whatever would follow. -/
theorem failedAtThen
    {code : ErrorCode}
    {place : Span}
    {next : α → Compile β} :
    Guides context state post (failAt code place >>= next) := by
  intro result after runs
  obtain ⟨_, _, taken, -⟩ := bind_ok runs
  cases taken

/-- A repeated step keeps what holds of the state of the loop. -/
theorem loop
    {H : CompileState → σ → Prop}
    {step : σ → Compile (Turn σ β)}
    {start : σ}
    (starts : H state start)
    (turn : ∀ between next, H between next →
      Guides context between (Turn.Guided H post) (step next)) :
    Guides context state post (Compile.loop step start) := by
  have within (bound : Nat) :
      ∀ between next, H between next → Guides context between post (loopWithin step bound next) := by
    induction bound with
    | zero => exact fun _ _ _ => failed
    | succ bound inductionHypothesis =>
        intro between next meets
        unfold loopWithin
        refine bind (turn between next meets) ?_
        rintro later (again | result) - continues
        · exact inductionHypothesis later again continues
        · exact pure continues
  unfold Compile.loop
  intro result after runs
  obtain ⟨_, _, counted, runs⟩ := bind_ok runs
  cases counted
  exact within _ _ _ starts _ _ runs

/-- A statement is added whose jumps have targets among some loops and switches. -/
theorem addUnder
    {kind : StmtKind}
    {place : Span}
    {breakables : List Breakable}
    (aims : ∀ jump, kind.jump? = some jump → jump.Aims breakables)
    (starts : ∀ part ∈ kind.starts, state.Plain part)
    (parts : ∀ part ∈ kind.childStmts, state.Targets (kind.breakable?.toList ++ breakables) part) :
    Guides context state (fun after id => after.Targets breakables id)
      (Compile.addStmt kind place) := by
  intro id after runs
  cases runs
  have pushed (index : Nat) (node : Stmt) (found : state.tree.stmts[index]? = some node) :
      (state.tree.stmts.push ⟨kind, place⟩)[index]? = some node :=
    Array.found_push found
  refine ⟨⟨rfl, pushed, rfl⟩, fun tree completes => ?_⟩
  have node := completes.stmt_last
  have before := completes.mono pushed
  refine .intro ?_ ?_ ?_ <;> rw [node]
  · exact aims
  · exact fun part isPart => starts part isPart tree before
  · exact fun part isPart => parts part isPart tree before

/-- A statement is added whose jumps have targets. -/
theorem addStmt
    {kind : StmtKind}
    {place : Span}
    (aims : ∀ jump, kind.jump? = some jump → jump.Aims state.scope.breakables)
    (starts : ∀ part ∈ kind.starts, state.Plain part)
    (parts : ∀ part ∈ kind.childStmts, state.Steers kind.breakable?.toList part) :
    Guides context state (fun after id => after.Steers [] id) (Compile.addStmt kind place) := by
  intro id after runs
  obtain ⟨flows, targets⟩ := addUnder aims starts parts id after runs
  refine ⟨flows, ?_⟩
  change after.Targets after.scope.breakables id
  rwa [flows.breakables]

/-- A statement is added that evaluates an expression or declares a variable. -/
theorem addPlain
    {kind : StmtKind}
    {place : Span}
    (plain : kind.isElementary = true) :
    Guides context state (fun after id => after.Plain id) (Compile.addStmt kind place) := by
  intro id after runs
  cases runs
  refine ⟨⟨rfl, fun index node found => Array.found_push found, rfl⟩, fun tree completes => ?_⟩
  rw [completes.stmt_last]
  exact plain

end Guides

/-! ## Declarations and conditions -/

/-- A change of the scope that keeps the targets of jumps. -/
theorem Quiet.scoping
    {change : Scope → Scope}
    (keeps : ∀ scope, (change scope).breakables = scope.breakables) :
    Quiet (modifyScope change) where
  kept _ _ _ _ runs := by
    cases runs
    exact ⟨keeps _, rfl, rfl⟩

instance : Quiet (modifyScope Scope.pushBlock) :=
  .scoping Scope.breakables_pushBlock

instance : Quiet (modifyScope Scope.popBlock) :=
  .scoping Scope.breakables_popBlock

instance : Quiet parseLimits := by
  unfold parseLimits
  refine repeats fun limits => andThen fun isOpen => ?_
  split <;> infer_instance

instance (base : Ty) : Quiet (declaredType base) := by
  unfold declaredType
  infer_instance

/-- A declared variable is no target of jumps. -/
theorem declare_breakables
    {scope after : Scope}
    {name : String}
    {ty : Ty}
    {slot : LocalSlot}
    (declares : scope.declare name ty = .ok (slot, after)) :
    after.breakables = scope.breakables := by
  unfold Scope.declare at declares
  split at declares
  · cases declares
  · next function found =>
      split at declares
      · cases declares
      · split at declares
        · cases declares
        · cases declares
          simp [Scope.breakables, found]

instance (name : String) (ty : Ty) (place : Span) : Quiet (declareVariable name ty place) where
  kept context state slot after runs := by
    unfold declareVariable at runs
    obtain ⟨_, _, looked, runs⟩ := bind_ok runs
    cases looked
    obtain ⟨⟨slot, scope⟩, between, checked, runs⟩ := bind_ok runs
    cases declares : state.scope.declare name ty with
    | error code =>
        rw [declares] at checked
        cases checked
    | ok result =>
        rw [declares] at checked
        cases checked
        cases runs
        exact ⟨declare_breakables declares, rfl, rfl⟩

instance (ty : Ty) (place : Span) : Quiet (initialValue ty place) := by
  have assigned : Quiet (do
      if ← eat .assign then return some (← initializer expression ty) else return none) :=
    inferInstance
  unfold initialValue
  refine andThen fun found => ?_
  dsimp only
  split
  · refine andThen fun isCall => ?_
    split
    · infer_instance
    · exact assigned
  · exact assigned

instance : Quiet atDeclaration := by
  unfold atDeclaration
  refine andThen fun token => ?_
  split
  · infer_instance
  · refine andThen fun next => ?_
    split <;> infer_instance
  · infer_instance

instance : Quiet condition := by
  unfold condition
  infer_instance

instance : Quiet expressionList := by
  unfold expressionList
  exact repeats fun collected => inferInstance

instance : Quiet caseValue := by
  unfold caseValue
  refine andThen fun value => andThen fun place => andThen fun _ => ?_
  dsimp only
  split <;> infer_instance

namespace Guides

/-- All statements of a list have targets for their jumps. -/
abbrev SteersAll (state : CompileState) (ids : List StmtId) : Prop :=
  ∀ id ∈ ids, state.Steers [] id

/-- Statements that evaluate expressions or declare variables. -/
abbrev PlainAll (state : CompileState) (ids : List StmtId) : Prop :=
  ∀ id ∈ ids, state.Plain id

/-- Declarations of variables. -/
theorem declarations :
    Guides context state PlainAll Compile.declarations := by
  unfold Compile.declarations
  refine behind fun _ _ _ => behind fun _ base _ => ?_
  dsimp only
  split
  · exact failedAtThen
  · refine loop (H := PlainAll) nofun fun between collected plain => ?_
    refine behind fun first named on => behind fun second declared further => ?_
    refine behind fun third initial later => behind fun fourth slot last => ?_
    have plain (id : StmtId) (isOne : id ∈ collected) :=
      (((plain id isOne).mono on).mono further |>.mono later).mono last
    refine behind fun fifth place more => bind (addPlain rfl) fun after id flows added => ?_
    have all : PlainAll after (collected ++ [id]) :=
      List.forall_mem_append.mpr ⟨fun id isOne => ((plain id isOne).mono more).mono flows,
        List.forall_mem_singleton.mpr added⟩
    refine behind fun last goesOn flows => ?_
    have all (id : StmtId) (isOne : id ∈ _) := (all id isOne).mono flows
    split <;> exact pure all

/-- A declaration as a statement. -/
theorem declarationStatement :
    Guides context state (fun after id => after.Steers [] id) Compile.declarationStatement := by
  unfold Compile.declarationStatement
  refine behind fun _ _ _ => bind declarations fun after collected _ plain => ?_
  refine behind fun last _ flows => ?_
  split
  · next single => exact pure ((plain single List.mem_cons_self).mono flows).steers
  · refine behind fun _ _ further => addStmt nofun nofun fun id isOne => ?_
    exact (((plain id isOne).mono flows).mono further).steers

/-- An expression as a statement. -/
theorem expressionStatement :
    Guides context state (fun after id => after.Steers [] id) Compile.expressionStatement := by
  unfold Compile.expressionStatement
  refine behind fun _ _ _ => behind fun _ _ _ => behind fun _ _ _ => behind fun _ _ _ => ?_
  exact (addPlain rfl).weaken fun _ _ plain => plain.steers

/-- The statements at the start of a counting loop. -/
theorem loopStart :
    Guides context state PlainAll Compile.loopStart := by
  unfold Compile.loopStart
  refine behind fun _ isEmpty _ => ?_
  split
  · exact pure nofun
  · refine behind fun _ declares _ => ?_
    split
    · exact declarations
    · refine behind fun between values _ => ?_
      clear * -
      induction values generalizing between with
      | nil => exact pure nofun
      | cons value values inductionHypothesis =>
          rw [List.mapM_cons]
          refine bind (M := CompileState.Plain) (behind fun _ _ _ => addPlain rfl)
            fun after id _ added => ?_
          refine bind (inductionHypothesis after) fun last ids flows plain => pure ?_
          exact List.forall_mem_cons.mpr ⟨added.mono flows, plain⟩

/-- A thrown exception. -/
theorem throwStatement :
    Guides context state (fun after id => after.Steers [] id) Compile.throwStatement := by
  unfold Compile.throwStatement
  refine behind fun _ _ _ => behind fun _ _ _ => behind fun _ _ _ => behind fun _ _ _ => ?_
  dsimp only
  split
  · exact behind fun _ _ _ => failedAtThen
  · exact behind fun _ _ _ => behind fun _ _ _ => addStmt nofun nofun nofun

/-- A return from the function. -/
theorem returnStatement :
    Guides context state (fun after id => after.Steers [] id) Compile.returnStatement := by
  have ends (state : CompileState) (start : Span) (value : Option ExprId) :
      Guides context state (fun after id => after.Steers [] id) (do
        expectSemicolon
        Compile.addStmt (.returnWith value) (← spanFrom start)) :=
    behind fun _ _ _ => behind fun _ _ _ => addStmt nofun nofun nofun
  unfold Compile.returnStatement
  refine behind fun _ start _ => behind fun _ _ _ => behind fun _ scope _ => ?_
  refine behind fun _ isBare _ => ?_
  dsimp only
  split
  · refine behind fun _ value _ => ?_
    cases value with
    | none =>
        dsimp only
        split
        · exact failedAtThen
        · exact ends _ _ _
    | some value =>
        dsimp only
        split
        · exact behind fun _ _ _ => failedAtThen
        · exact behind fun _ _ _ => ends _ _ _
  · refine behind fun _ value _ => ?_
    cases value with
    | none =>
        dsimp only
        split
        · exact failedAtThen
        · exact ends _ _ _
    | some value =>
        dsimp only
        split
        · exact behind fun _ _ _ => failedAtThen
        · exact behind fun _ _ _ => ends _ _ _

/-- A jump has a target among the loops and switches around it. -/
theorem jump
    (isContinue : Bool) :
    Guides context state (fun after id => after.Steers [] id) (Compile.jump isContinue) := by
  have checked (state : CompileState) (start : Span) (label : Option String) :
      Guides context state (fun after id => after.Steers [] id) (do
        checkAt (← spanFrom start) ((← get).scope.checkJump label isContinue)
        expectSemicolon
        Compile.addStmt (if isContinue then .continueTo label else .breakTo label)
          (← spanFrom start)) := by
    refine behind fun here place _ => ?_
    intro id after runs
    obtain ⟨_, _, looked, runs⟩ := bind_ok runs
    cases looked
    obtain ⟨_, _, accepts, runs⟩ := bind_ok runs
    cases checks : here.scope.checkJump label isContinue with
    | error code =>
        rw [checks] at accepts
        cases accepts
    | ok _ =>
        rw [checks] at accepts
        cases accepts
        have aims := Scope.checkJump_aims checks
        have added :
            Guides context here (fun after id => after.Steers [] id) (do
              expectSemicolon
              Compile.addStmt (if isContinue then .continueTo label else .breakTo label)
                (← spanFrom start)) := by
          refine behind fun second _ flows => behind fun third _ further => addStmt ?_ ?_ ?_
          · rw [further.breakables, flows.breakables]
            cases isContinue <;> (rintro _ ⟨⟩; exact aims)
          · cases isContinue <;> exact nofun
          · cases isContinue <;> exact nofun
        exact added id after runs
  unfold Compile.jump
  refine behind fun _ start _ => behind fun _ _ _ => behind fun _ isNamed _ => ?_
  dsimp only
  split
  · exact behind fun _ _ _ => behind fun _ _ _ => behind fun _ _ _ => checked _ _ _
  · exact behind fun _ _ _ => checked _ _ _

/-! ## Statements with nested statements -/

section Nested

variable {nested : Compile StmtId}
  (guides : ∀ state, Guides context state (fun after id => after.Steers [] id) nested)

/-- A part that may be there. -/
theorem optional
    {step : Compile StmtId}
    (guides : Guides context state (fun after id => after.Steers [] id) step) :
    Guides context state (fun after found => ∀ id ∈ found, after.Steers [] id) (some <$> step) := by
  refine map guides fun _ _ steers => ?_
  rintro _ ⟨⟩
  exact steers

include guides

/-- The statements of a block. -/
theorem blockBody :
    Guides context state SteersAll (Compile.blockBody nested) := by
  unfold Compile.blockBody
  refine loop (H := SteersAll) nofun fun between collected steers => ?_
  refine behind fun first isClosed on => ?_
  have steers (id : StmtId) (isOne : id ∈ collected) := (steers id isOne).mono on
  dsimp only
  split
  · exact pure steers
  · refine behind fun second isEnd further => ?_
    have steers (id : StmtId) (isOne : id ∈ collected) := (steers id isOne).mono further
    split
    · exact failedThen
    · exact bind (guides _) fun after id flows added => pure
        (List.forall_mem_append.mpr ⟨fun id isOne => (steers id isOne).mono flows,
          List.forall_mem_singleton.mpr added⟩)

/-- The statements of a block in braces. -/
theorem scopedBlock :
    Guides context state SteersAll (Compile.scopedBlock nested) := by
  unfold Compile.scopedBlock
  refine behind fun _ _ _ => behind fun _ _ _ => bind (blockBody guides) ?_
  exact fun _ _ _ steers => behind fun _ _ flows => pure fun id isOne => (steers id isOne).mono flows

/-- A block. -/
theorem block :
    Guides context state (fun after id => after.Steers [] id) (Compile.block nested) := by
  unfold Compile.block
  refine behind fun _ _ _ => bind (scopedBlock guides) fun _ _ _ steers => behind fun _ _ flows => ?_
  exact addStmt nofun nofun fun id isOne => (steers id isOne).mono flows

/-- A branch. -/
theorem branch :
    Guides context state (fun after id => after.Steers [] id) (Compile.branch nested) := by
  unfold Compile.branch
  refine behind fun _ start _ => behind fun _ _ _ => behind fun _ test _ => ?_
  refine bind (guides _) fun between whenTrue _ steersTrue => ?_
  refine behind fun first isThere on => ?_
  have steersTrue := steersTrue.mono on
  have ends {state : CompileState} {whenFalse : Option StmtId} (flows : first.Flows state)
      (steersFalse : ∀ id ∈ whenFalse, state.Steers [] id) :
      Guides context state (fun after id => after.Steers [] id) (do
        Compile.addStmt (.branch test whenTrue whenFalse) (← spanFrom start)) := by
    refine behind fun _ _ further => addStmt nofun nofun ?_
    refine List.forall_mem_cons.mpr ⟨(steersTrue.mono flows).mono further, fun id isOther => ?_⟩
    exact (steersFalse id (Option.mem_toList.mp isOther)).mono further
  dsimp only
  split
  · exact bind (optional (guides _)) fun _ _ flows steersFalse => ends flows steersFalse
  · exact bind (M := fun after found => ∀ id ∈ found, after.Steers [] id) (pure nofun)
      fun _ _ flows steersFalse => ends flows steersFalse

/-! ### Loops -/

/-- A loop is a target of the jumps in its body. -/
theorem loopBody
    (label : Option String) :
    Guides context state (fun after id => after.Steers [⟨label, true⟩] id)
      (Compile.loopBody nested label) := by
  intro id after runs
  unfold Compile.loopBody at runs
  obtain ⟨_, entered, enters, runs⟩ := bind_ok runs
  cases enters
  obtain ⟨body, left, takes, runs⟩ := bind_ok runs
  obtain ⟨_, last, leaves, runs⟩ := bind_ok runs
  cases leaves
  cases runs
  obtain ⟨flows, steers⟩ := guides _ _ _ takes
  have inside : left.scope.breakables = (state.scope.pushLoop label).breakables := flows.breakables
  have entered := state.scope.breakables_push ⟨label, true⟩
  have same : left.scope.popBreakable.breakables = state.scope.breakables := by
    rw [Scope.breakables_popBreakable, inside]
    exact entered.2
  refine ⟨⟨same, flows.stmts, flows.functions⟩, fun tree completes => ?_⟩
  refine (steers tree completes).mono ?_
  change left.scope.breakables ⊆ ⟨label, true⟩ :: left.scope.popBreakable.breakables
  rw [inside, same]
  exact entered.1

/-- A loop with its test in front. -/
theorem whileLoop
    (label : Option String) :
    Guides context state (fun after id => after.Steers [] id)
      (Compile.whileLoop nested label) := by
  unfold Compile.whileLoop
  refine behind fun _ _ _ => behind fun _ _ _ => behind fun _ _ _ => ?_
  refine bind (loopBody guides label) fun _ body _ steers => behind fun _ _ flows => ?_
  exact addStmt nofun nofun (List.forall_mem_singleton.mpr (steers.mono flows))

/-- A loop with its test at the end. -/
theorem doLoop
    (label : Option String) :
    Guides context state (fun after id => after.Steers [] id) (Compile.doLoop nested label) := by
  unfold Compile.doLoop
  refine behind fun _ _ _ => behind fun _ _ _ => bind (loopBody guides label) ?_
  intro _ body _ steers
  refine behind fun _ _ first => behind fun _ _ second => behind fun _ _ third => ?_
  refine behind fun _ _ fourth => addStmt nofun nofun (List.forall_mem_singleton.mpr ?_)
  exact ((steers.mono first).mono second |>.mono third).mono fourth

/-- A loop with a start, a test and steps. -/
theorem forLoop
    (label : Option String) :
    Guides context state (fun after id => after.Steers [] id) (Compile.forLoop nested label) := by
  unfold Compile.forLoop
  refine behind fun _ start _ => behind fun _ _ _ => behind fun _ _ _ => behind fun _ _ _ => ?_
  refine bind loopStart fun first initial _ plain => ?_
  have ends {state : CompileState} {test : Option ExprId} {steps : List ExprId}
      (flows : first.Flows state) :
      Guides context state (fun after id => after.Steers [] id) (do
        expect .closePar .closePar
        let body ← Compile.loopBody nested label
        let statement ← Compile.addStmt (.forLoop label initial test steps body)
          (← spanFrom start)
        modifyScope Scope.popBlock
        return statement) := by
    refine behind fun _ _ on => bind (loopBody guides label) fun _ body further steers => ?_
    refine behind fun last _ more => ?_
    have plain (id : StmtId) (isOne : id ∈ initial) : last.Plain id :=
      ((plain id isOne).mono flows |>.mono on |>.mono further).mono more
    refine bind (addStmt nofun plain (List.forall_mem_append.mpr ⟨?_, ?_⟩)) ?_
    · exact fun id isOne => (plain id isOne).steers
    · exact List.forall_mem_singleton.mpr (steers.mono more)
    · exact fun _ _ _ steers => behind fun _ _ flows => pure (steers.mono flows)
  have tested {state : CompileState} {test : Option ExprId} (flows : first.Flows state) :
      Guides context state (fun after id => after.Steers [] id) (do
        expectSemicolon
        let steps ← if ← at' .closePar then Pure.pure [] else Compile.expressionList
        expect .closePar .closePar
        let body ← Compile.loopBody nested label
        let statement ← Compile.addStmt (.forLoop label initial test steps body)
          (← spanFrom start)
        modifyScope Scope.popBlock
        return statement) := by
    refine behind fun _ _ on => behind fun _ isEmpty further => ?_
    have flows := (flows.trans on).trans further
    dsimp only
    split
    · exact behind fun _ _ more => ends (flows.trans more)
    · exact behind fun _ _ more => ends (flows.trans more)
  refine behind fun _ _ on => behind fun _ isEmpty further => ?_
  have flows := on.trans further
  dsimp only
  split
  · exact behind fun _ _ more => tested (flows.trans more)
  · refine behind fun _ _ more => behind fun _ _ later => behind fun _ _ last => ?_
    exact tested (((flows.trans more).trans later).trans last)

/-- A loop with a number of rounds. -/
theorem repeatLoop
    (label : Option String) :
    Guides context state (fun after id => after.Steers [] id)
      (Compile.repeatLoop nested label) := by
  unfold Compile.repeatLoop
  refine behind fun _ _ _ => behind fun _ _ _ => behind fun _ _ _ => behind fun _ _ _ => ?_
  dsimp only
  split
  · exact failedThen
  · refine behind fun _ _ _ => behind fun _ _ _ => ?_
    split
    · exact behind fun _ _ _ => failedAtThen
    · refine behind fun _ _ _ => bind (loopBody guides label) fun _ body _ steers => ?_
      refine behind fun _ _ flows => ?_
      exact addStmt nofun nofun (List.forall_mem_singleton.mpr (steers.mono flows))

/-- A loop with a label in front. -/
theorem labeledLoop :
    Guides context state (fun after id => after.Steers [] id) (Compile.labeledLoop nested) := by
  unfold Compile.labeledLoop
  refine behind fun _ _ _ => behind fun _ _ _ => behind fun _ _ _ => behind fun _ _ _ => ?_
  split
  · exact whileLoop guides _
  · exact doLoop guides _
  · exact forLoop guides _
  · exact repeatLoop guides _
  · exact failed

/-! ### Switches and handlers -/

/-- The labels and statements of a switch. -/
theorem switchBody :
    Guides context state (fun after parts => SteersAll after parts.2)
      (Compile.switchBody nested) := by
  unfold Compile.switchBody
  refine loop (H := fun state parts => SteersAll state parts.2) nofun ?_
  rintro between ⟨cases, body⟩ steers
  have labeled (state : CompileState) (flows : between.Flows state) (label : Span)
      (value : Option Int64) :
      Guides context state
        (Turn.Guided (fun state parts => SteersAll state parts.2)
          fun state (parts : List SwitchCase × List StmtId) => SteersAll state parts.2)
        (do
          expect .colon .noColon
          if cases.any fun entry => entry.value == value then failAt .redefinedCase label
          return Turn.again (cases ++ [⟨value, Word.ofNat body.length⟩], body)) := by
    refine behind fun _ _ further => ?_
    dsimp only
    split
    · exact failedAtThen
    · exact pure fun id isOne => ((steers id isOne).mono flows).mono further
  refine behind fun _ isClosed first => ?_
  dsimp only
  split
  · exact pure fun id isOne => (steers id isOne).mono first
  · refine behind fun _ isEnd second => ?_
    split
    · exact failedThen
    · refine behind fun _ label third => behind fun _ isCase fourth => ?_
      have flows := ((first.trans second).trans third).trans fourth
      split
      · exact behind fun _ value further => labeled _ (flows.trans further) _ (some value)
      · refine behind fun _ isDefault fifth => ?_
        have flows := flows.trans fifth
        split
        · exact labeled _ flows _ none
        · split
          · exact failedThen
          · exact bind (guides _) fun _ id further added => pure
              (List.forall_mem_append.mpr
                ⟨fun id isOne => (steers id isOne).mono (flows.trans further),
                  List.forall_mem_singleton.mpr added⟩)

/-- A switch is a target of the jumps in it that leave it. -/
theorem switchOn :
    Guides context state (fun after id => after.Steers [] id) (Compile.switchOn nested) := by
  unfold Compile.switchOn
  refine behind fun _ _ _ => behind fun _ _ _ => behind fun _ _ _ => behind fun _ value _ => ?_
  refine behind fun _ _ _ => ?_
  dsimp only
  split
  · exact behind fun _ _ _ => failedAtThen
  · refine behind fun _ _ _ => behind fun outer _ _ => ?_
    intro id after runs
    obtain ⟨_, entered, enters, runs⟩ := bind_ok runs
    cases enters
    obtain ⟨⟨cases, body⟩, first, takes, runs⟩ := bind_ok runs
    obtain ⟨on, steers⟩ := switchBody guides _ _ takes
    obtain ⟨place, second, spanned, runs⟩ := bind_ok runs
    have further := CompileState.Flows.ofKept (Preserves.kept _ _ _ _ spanned)
    obtain ⟨statement, third, adds, runs⟩ := bind_ok runs
    obtain ⟨_, last, leaves, runs⟩ := bind_ok runs
    cases leaves
    cases runs
    have inside : second.scope.breakables = outer.scope.pushSwitch.breakables := by
      rw [further.breakables, on.breakables]
      exact outer.scope.pushSwitch.breakables_pushBlock
    have entered := outer.scope.breakables_push ⟨none, false⟩
    have parts (id : StmtId) (isOne : id ∈ body) :
        second.Targets (⟨none, false⟩ :: outer.scope.breakables) id := by
      intro tree completes
      refine ((steers id isOne).mono further tree completes).mono ?_
      change second.scope.breakables ⊆ _
      rw [inside]
      exact entered.1
    have added :
        Guides context second (fun after id => after.Targets outer.scope.breakables id)
          (Compile.addStmt (.switchOn value cases body) place) :=
      addUnder nofun nofun parts
    obtain ⟨flows, targets⟩ := added _ _ adds
    have same : third.scope.popBlock.popBreakable.breakables = outer.scope.breakables := by
      rw [Scope.breakables_popBreakable, Scope.breakables_popBlock, flows.breakables, inside]
      exact entered.2
    have whole := (on.trans further).trans flows
    refine ⟨⟨same, whole.stmts, whole.functions⟩, ?_⟩
    change third.Targets third.scope.popBlock.popBreakable.breakables id
    rwa [same]

/-- The catch clauses behind a guarded block. -/
theorem catchClauses :
    Guides context state (fun after clauses => ∀ clause ∈ clauses, after.Steers [] clause.body)
      (Compile.catchClauses nested) := by
  unfold Compile.catchClauses
  refine loop (H := fun state clauses => ∀ clause ∈ clauses, state.Steers [] clause.body) nofun ?_
  intro between clauses steers
  refine behind fun _ _ first => behind fun _ isThere second => ?_
  have flows := first.trans second
  split
  · refine behind fun _ _ on => behind fun _ test further => behind fun _ _ more => ?_
    have flows := ((flows.trans on).trans further).trans more
    refine behind fun _ _ on => behind fun _ kind further => behind fun _ _ more => ?_
    have flows := ((flows.trans on).trans further).trans more
    refine behind fun _ place on => bind (block guides) fun _ body further added => pure ?_
    have flows := (flows.trans on).trans further
    exact List.forall_mem_append.mpr ⟨fun clause isOne => (steers clause isOne).mono flows,
      List.forall_mem_singleton.mpr added⟩
  · exact pure fun clause isOne => (steers clause isOne).mono flows

/-- A guarded block with its handlers. -/
theorem guarded :
    Guides context state (fun after id => after.Steers [] id) (Compile.guarded nested) := by
  unfold Compile.guarded
  refine behind fun _ start _ => behind fun _ _ _ => bind (scopedBlock guides) ?_
  intro _ body _ steersBody
  refine bind (catchClauses guides) fun _ clauses on steersClauses => ?_
  refine behind fun first isThere further => ?_
  have ends {state : CompileState} {final : Option StmtId} (flows : first.Flows state)
      (steersFinal : ∀ id ∈ final, state.Steers [] id) :
      Guides context state (fun after id => after.Steers [] id) (do
        Compile.addStmt (.guarded body clauses final) (← spanFrom start)) := by
    refine behind fun _ _ more => addStmt nofun nofun ?_
    refine List.forall_mem_append.mpr ⟨List.forall_mem_append.mpr ⟨?_, ?_⟩, ?_⟩
    · exact fun id isOne =>
        ((steersBody id isOne).mono on |>.mono further |>.mono flows).mono more
    · refine List.forall_mem_map.mpr fun clause isOne => ?_
      exact ((steersClauses clause isOne).mono further |>.mono flows).mono more
    · exact fun id isFinal => (steersFinal id (Option.mem_toList.mp isFinal)).mono more
  dsimp only
  split
  · exact bind (optional (block guides)) fun _ _ flows steersFinal => ends flows steersFinal
  · exact bind (M := fun after found => ∀ id ∈ found, after.Steers [] id) (pure nofun)
      fun _ _ flows steersFinal => ends flows steersFinal

/-! ### Statements -/

/-- The statement that a symbol starts. -/
theorem symbolStatement
    (symbol : Symbol) :
    Guides context state (fun after id => after.Steers [] id)
      (Compile.symbolStatement nested symbol) := by
  unfold Compile.symbolStatement
  split
  · exact block guides
  · exact branch guides
  · exact whileLoop guides none
  · exact doLoop guides none
  · exact forLoop guides none
  · exact repeatLoop guides none
  · exact switchOn guides
  · exact guarded guides
  · exact throwStatement
  · exact returnStatement
  · exact jump false
  · exact jump true
  · exact failed
  · exact failed
  · exact failed
  · exact behind fun _ _ _ => behind fun _ _ _ => addStmt nofun nofun nofun
  · split
    · exact declarationStatement
    · exact expressionStatement

/-- The statement at the current token. -/
theorem statementWith :
    Guides context state (fun after id => after.Steers [] id) (Compile.statementWith nested) := by
  unfold Compile.statementWith
  refine behind fun _ token _ => ?_
  split
  · exact symbolStatement guides _
  · refine behind fun _ next _ => ?_
    split
    · exact labeledLoop guides
    · refine behind fun _ declares _ => ?_
      split
      · exact declarationStatement
      · exact expressionStatement
  · exact expressionStatement

end Nested

/-- A statement. -/
theorem statement :
    Guides context state (fun after id => after.Steers [] id) Compile.statement := by
  have within (bound : Nat) :
      ∀ state, Guides context state (fun after id => after.Steers [] id)
        (statementWithin bound) := by
    induction bound with
    | zero => exact fun _ => failed
    | succ bound inductionHypothesis => exact fun _ => statementWith inductionHypothesis
  exact behind fun _ _ _ => within _ _

/-- The body of a function. -/
theorem functionBlock :
    Guides context state (fun after id => after.Steers [] id) Compile.functionBlock := by
  unfold Compile.functionBlock
  refine behind fun _ _ _ => behind fun _ _ _ => bind (blockBody fun _ => statement) ?_
  refine fun _ _ _ steers => behind fun _ _ flows => ?_
  exact addStmt nofun nofun fun id isOne => (steers id isOne).mono flows

end Guides

end Compile

end BotScript
