import BotScript.Proofs.BuildingPrograms
import Mathlib.Order.Defs.Unbundled

namespace BotScript

/-!
# Compilation steps that add no statements

What compiles an expression or a type adds expressions, and imports classes of
the host, but adds no statement and no function and leaves the targets of jumps
alone.  This is a class, so that a step is found to be one of them from the steps
it consists of; the same is done for any relation between states that lasts.
-/

/-- The loops and switches that can be left, the innermost first. -/
def Scope.breakables (scope : Scope) : List Breakable :=
  (scope.function.map (·.breakables)).getD []

namespace Compile

variable {α β σ : Type} {R : CompileState → CompileState → Prop}

/-- The state behind a step is related to the one in front of it. -/
class Preserves (R : CompileState → CompileState → Prop) (step : Compile α) : Prop where
  kept : ∀ context state value after, step context state = .ok (value, after) → R state after

namespace Preserves

/-! ## Steps of the monad -/

section Monad

variable [lasts : IsPreorder CompileState R]

instance pure (value : α) : Preserves R (Pure.pure value : Compile α) where
  kept _ _ _ _ runs := by
    cases runs
    exact refl_of R _

instance bind (step : Compile α) (next : α → Compile β)
    [first : Preserves R step] [rest : ∀ value, Preserves R (next value)] :
    Preserves R (step >>= next) where
  kept context state value after runs := by
    obtain ⟨middle, between, taken, goesOn⟩ := bind_ok runs
    exact trans_of R (first.kept _ _ _ _ taken) ((rest middle).kept _ _ _ _ goesOn)

instance map (change : α → β) (step : Compile α) [Preserves R step] :
    Preserves R (change <$> step) :=
  bind step fun value => Pure.pure (change value)

/-- A step goes on with such steps. -/
theorem andThen
    {step : Compile α}
    {next : α → Compile β}
    [Preserves R step]
    (rest : ∀ value, Preserves R (next value)) :
    Preserves R (step >>= next) :=
  bind step next

instance failAt (code : ErrorCode) (place : Span) :
    Preserves R (Compile.failAt code place : Compile α) where
  kept _ _ _ _ runs := by
    cases runs

instance loopWithin (step : σ → Compile (Turn σ α)) [keeps : ∀ state, Preserves R (step state)]
    (bound : Nat) (state : σ) :
    Preserves R (Compile.loopWithin step bound state) := by
  induction bound generalizing state with
  | zero =>
      constructor
      rintro _ _ _ _ ⟨⟩
  | succ bound inductionHypothesis =>
      unfold Compile.loopWithin
      refine andThen fun turn => ?_
      cases turn with
      | again state => exact inductionHypothesis state
      | done result => exact pure result

instance loop (step : σ → Compile (Turn σ α)) [∀ state, Preserves R (step state)] (state : σ) :
    Preserves R (Compile.loop step state) where
  kept context before value after runs := by
    obtain ⟨_, _, counted, runs⟩ := bind_ok runs
    cases counted
    exact (loopWithin step _ state).kept _ _ _ _ runs

/-- A repeated step. -/
theorem repeats
    {step : σ → Compile (Turn σ α)}
    {state : σ}
    (keeps : ∀ state, Preserves R (step state)) :
    Preserves R (Compile.loop step state) :=
  inferInstance

end Monad

instance ite (condition : Prop) [Decidable condition] (whenTrue whenFalse : Compile α)
    [Preserves R whenTrue] [Preserves R whenFalse] :
    Preserves R (if condition then whenTrue else whenFalse) := by
  split <;> assumption

end Preserves

end Compile

/-- The statements, the functions and the targets of jumps are the same. -/
structure CompileState.Kept (before after : CompileState) : Prop where
  breakables : after.scope.breakables = before.scope.breakables
  stmts : after.tree.stmts = before.tree.stmts
  functions : after.tree.functions = before.tree.functions

namespace CompileState.Kept

instance : IsPreorder CompileState Kept where
  refl _ := ⟨rfl, rfl, rfl⟩
  trans _ _ _ first second :=
    ⟨second.breakables.trans first.breakables, second.stmts.trans first.stmts,
      second.functions.trans first.functions⟩

end CompileState.Kept

namespace Compile

/-- A step that adds no statement and no function and keeps the targets of jumps. -/
abbrev Quiet {α : Type} (step : Compile α) : Prop :=
  Preserves CompileState.Kept step

open Preserves (andThen repeats)

/-- A step over tokens. -/
instance (priority := low) Preserves.ofStrides {α : Type} (step : Compile α)
    [strides : Strides step] : Quiet step where
  kept context state value after runs := by
    obtain ⟨tree, scope, -, -⟩ := strides.strode _ _ _ _ runs
    exact ⟨congrArg Scope.breakables scope, congrArg Tree.stmts tree,
      congrArg Tree.functions tree⟩

/-! ## Expressions and classes that are added -/

instance (kind : ExprKind) (ty : Ty) (place : Span) : Quiet (addExpr kind ty place) where
  kept context state value after runs := by
    cases runs
    exact ⟨rfl, rfl, rfl⟩

instance (name : String) : Quiet (resolveClass? name) where
  kept context state value after runs := by
    unfold resolveClass? at runs
    obtain ⟨_, _, looked, runs⟩ := bind_ok runs
    cases looked
    obtain ⟨_, _, looked, runs⟩ := bind_ok runs
    cases looked
    cases imported :
        importClass context.registry (context.registry.classes.length + 1) state.tree name with
    | none =>
        rw [imported] at runs
        cases runs
        exact refl_of _ _
    | some found =>
        rw [imported] at runs
        cases runs
        obtain ⟨id, after⟩ := found
        have same := importClass_same imported
        have stmts : after.stmts = state.tree.stmts := by rw [same]
        have functions : after.functions = state.tree.functions := by rw [same]
        exact ⟨rfl, stmts, functions⟩

instance : Quiet atType := by
  unfold atType
  refine andThen fun token => ?_
  split <;> infer_instance

instance : Quiet parseType := by
  unfold parseType
  refine andThen fun token => ?_
  dsimp only
  split
  · infer_instance
  · refine andThen fun _ => andThen fun _ => andThen fun _ => ?_
    infer_instance
  · infer_instance

/-! ## Members and calls -/

instance (owner : ClassId) (place : Span) : Quiet (addThis owner place) := by
  unfold addThis
  infer_instance

instance (object : Option ExprId) (id : ClassId) (name : String) (place : Span) :
    Quiet (fieldAccess? object id name place) := by
  unfold fieldAccess?
  refine andThen fun state => ?_
  dsimp only
  split
  · split <;> infer_instance
  · refine andThen fun _ => andThen fun _ => ?_
    split <;> infer_instance

instance (values : List ExprId) : Quiet (values.mapM typeOf) := by
  induction values with
  | nil => exact inferInstanceAs (Quiet (pure []))
  | cons value values inductionHypothesis =>
      rw [List.mapM_cons]
      infer_instance

instance (object : ExprId) (id : ClassId) (name : String) (place : Span)
    (values : List ExprId) : Quiet (methodCall object id name place values) := by
  unfold methodCall
  refine andThen fun types => andThen fun tree => ?_
  dsimp only
  split
  · infer_instance
  · refine andThen fun overload => andThen fun chosen => ?_
    infer_instance

instance (name : String) (place : Span) (values : List ExprId) :
    Quiet (unqualifiedCall name place values) := by
  have outside (types : List Ty) (whole : Span) :
      Quiet (do
        let registry := (← read).registry
        match registry.resolve? types (registry.functionsNamed name) with
        | some found =>
            let (native, result) ← checkAt place found
            addExpr (.nativeCall native values) result whole
        | none =>
            let candidates := (← tree).functionsNamed name
            if candidates.isEmpty then failAt .undefinedCall place
            let overload ← selectOverload (candidates.map .user) types place
            match overload.target with
            | .user function =>
                addExpr (.call function (values ++ overload.defaults)) overload.result whole
            | .native _ => failAt .undefinedCall place) := by
    refine andThen fun context => ?_
    dsimp only
    split
    · infer_instance
    · have chosen (overload : Overload) :
          Quiet (match overload.target with
            | .user function =>
                addExpr (.call function (values ++ overload.defaults)) overload.result whole
            | .native _ => failAt .undefinedCall place) := by
        split <;> infer_instance
      infer_instance
  unfold unqualifiedCall
  refine andThen fun types => andThen fun whole => andThen fun state => ?_
  dsimp only
  split
  · have := outside types whole
    infer_instance
  · exact outside types whole

instance (id : ClassId) (values : List ExprId) (place : Span) :
    Quiet (construction id values place) := by
  unfold construction
  refine andThen fun _ => andThen fun _ => ?_
  dsimp only
  split
  · infer_instance
  · refine andThen fun types => andThen fun _ => andThen fun _ => ?_
    split
    · infer_instance
    · split <;> infer_instance

/-! ## Primary expressions and suffixes -/

section Nested

variable (nested : Compile ExprId) [Quiet nested]

instance : Quiet (arguments nested) := by
  unfold arguments
  refine andThen fun _ => andThen fun isEmpty => ?_
  split
  · infer_instance
  · exact repeats fun collected => inferInstance

instance : Quiet (newExpression nested) := by
  unfold newExpression
  refine andThen fun start => andThen fun _ => andThen fun name => ?_
  obtain ⟨name, place⟩ := name
  refine andThen fun found => andThen fun id => andThen fun isCall => ?_
  dsimp only
  split <;> infer_instance

instance : Quiet (identifier nested) := by
  have found (state : CompileState) (name : String) (place : Span) :
      Quiet (match state.scope.lookup? name with
        | some (slot, ty) => addExpr (.localVar slot) ty place
        | none => do
            let field ←
              match state.scope.owner with
              | some owner => fieldAccess? none owner name place
              | none => pure none
            requireAt .undefinedVariable place field) := by
    split
    · infer_instance
    · dsimp only
      split <;> infer_instance
  unfold identifier
  refine andThen fun name => andThen fun place => andThen fun _ =>
    andThen fun isCall => ?_
  split
  · infer_instance
  · refine andThen fun state => ?_
    dsimp only
    split
    · split <;> infer_instance
    · exact found state name place

instance (value : LiteralValue) (ty : Ty) : Quiet (addLiteral value ty) := by
  unfold addLiteral
  infer_instance

instance : Quiet (primary nested) := by
  unfold primary
  refine andThen fun token => ?_
  split
  · refine andThen fun literal => ?_
    split <;> infer_instance
  all_goals infer_instance

instance (object : ExprId) : Quiet (member nested object) := by
  unfold member
  refine andThen fun _ => andThen fun _ => andThen fun _ =>
    andThen fun id => andThen fun name => ?_
  obtain ⟨name, place⟩ := name
  infer_instance

instance (array : ExprId) : Quiet (element nested array) := by
  unfold element
  refine andThen fun _ => andThen fun _ => andThen fun ty =>
    andThen fun position => andThen fun _ => ?_
  dsimp only
  split <;> infer_instance

instance (op : StepOp) (target : ExprId) (start : Span) : Quiet (addStep op target start) := by
  unfold addStep
  dsimp only
  infer_instance

instance : Quiet (suffixed nested) := by
  have turns (value : ExprId) : Quiet (do
      match ← symbol? with
      | some .dot =>
          advance
          return Turn.again (← member nested value)
      | some .openBracket =>
          advance
          return .again (← element nested value)
      | some .increment =>
          advance
          return .again (← addStep .postIncrement value (← spanOf value))
      | some .decrement =>
          advance
          return .again (← addStep .postDecrement value (← spanOf value))
      | _ => return .done value) := by
    refine andThen fun found => ?_
    split <;> infer_instance
  unfold suffixed
  exact andThen fun value => repeats turns

/-! ## Operators -/

instance (bound : Nat) : Quiet (prefixedWithin nested bound) := by
  induction bound with
  | zero => exact inferInstanceAs (Quiet (fail _))
  | succ bound inductionHypothesis =>
      unfold prefixedWithin
      refine andThen fun start => andThen fun found => ?_
      split
      · infer_instance
      · split <;> infer_instance

instance : Quiet (prefixed nested) := by
  unfold prefixed
  infer_instance

instance (symbol : Symbol) (place : Span) (left right : ExprId) :
    Quiet (combine symbol place left right) := by
  unfold combine
  dsimp only
  refine andThen fun _ => andThen fun _ => andThen fun _ =>
    andThen fun _ => ?_
  split <;> infer_instance

instance (operators : List Symbol) : Quiet (joined operators nested) := by
  unfold joined
  refine andThen fun left => repeats fun left => andThen fun found => ?_
  split <;> infer_instance

instance (levels : List (List Symbol)) : Quiet (binary nested levels) := by
  induction levels with
  | nil => assumption
  | cons operators tighter inductionHypothesis =>
      unfold binary
      infer_instance

instance : Quiet (conditional nested) := by
  unfold conditional
  refine andThen fun condition => andThen fun isThere => ?_
  dsimp only
  split
  · infer_instance
  · refine andThen fun _ => ?_
    split <;> infer_instance

instance (ty : Ty) : Quiet (fitting nested ty) := by
  unfold fitting
  infer_instance

instance (ty : Ty) : Quiet (initializer nested ty) := by
  induction ty with
  | array elementType inductionHypothesis =>
      unfold initializer
      refine andThen fun isList => ?_
      split
      · refine andThen fun start => andThen fun _ => andThen fun isEmpty => ?_
        dsimp only
        split
        · infer_instance
        · refine @Preserves.bind _ _ _ _ _ _ (repeats fun items => ?_) inferInstance
          infer_instance
      · infer_instance
  | _ =>
      unfold initializer
      infer_instance

instance : Quiet (assignment nested) := by
  unfold assignment
  refine andThen fun target => andThen fun found => ?_
  split
  · infer_instance
  · refine andThen fun place => andThen fun _ => ?_
    dsimp only
    split
    · infer_instance
    · refine andThen fun _ => ?_
      split <;> infer_instance

end Nested

instance (bound : Nat) : Quiet (expressionWithin bound) := by
  induction bound with
  | zero => exact inferInstanceAs (Quiet (fail _))
  | succ bound inductionHypothesis =>
      unfold expressionWithin
      infer_instance

instance : Quiet expression := by
  unfold expression
  infer_instance

end Compile

end BotScript
