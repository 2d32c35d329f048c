import BotScript.Proofs.SkippedRanges
import BotScript.Proofs.StructuredPrograms

namespace BotScript

/-!
# Ranges of tokens that are read

Where a step ends depends on the tokens from the position at which it starts.  A
step that reads no token stays where it is; what consumes tokens knows them.
-/

/-- The position is the same. -/
def CompileState.Stays (before after : CompileState) : Prop :=
  after.position = before.position

instance : IsPreorder CompileState CompileState.Stays where
  refl _ := rfl
  trans _ _ _ first second := second.trans first

namespace Compile

variable {α β σ : Type}

/-- A step that consumes no token. -/
abbrev Still (step : Compile α) : Prop :=
  Preserves CompileState.Stays step

open Preserves (andThen repeats)

/-! ## Steps that consume no token -/

section Still

instance : Still (MonadReader.read : Compile CompileContext) where
  kept _ _ _ _ runs := by
    cases runs
    rfl

instance : Still (MonadState.get : Compile CompileState) where
  kept _ _ _ _ runs := by
    cases runs
    rfl

instance : Still tokenCount := by
  unfold tokenCount
  infer_instance

instance (position : Nat) : Still (tokenAt position) := by
  unfold tokenAt
  infer_instance

instance : Still current := by
  unfold current
  infer_instance

instance : Still symbol? := by
  unfold symbol?
  infer_instance

instance : Still span := by
  unfold span
  infer_instance

instance : Still text := by
  unfold text
  infer_instance

instance : Still previousSpan := by
  unfold previousSpan
  refine andThen fun state => ?_
  split <;> infer_instance

instance (start : Span) : Still (spanFrom start) := by
  unfold spanFrom
  infer_instance

instance : Still atEnd := by
  unfold atEnd
  infer_instance

instance (symbol : Symbol) : Still (at' symbol) := by
  unfold at'
  infer_instance

instance (symbols : List Symbol) : Still (atAny symbols) := by
  unfold atAny
  refine andThen fun found => ?_
  split <;> infer_instance

instance : Still atIdentifier := by
  unfold atIdentifier
  infer_instance

instance : Still nextKind := by
  unfold nextKind
  infer_instance

instance (code : ErrorCode) : Still (fail code : Compile α) := by
  unfold fail
  infer_instance

instance (place : Span) (result : Except ErrorCode α) : Still (checkAt place result) := by
  unfold checkAt
  split <;> infer_instance

instance (code : ErrorCode) (place : Span) (value : Option α) :
    Still (requireAt code place value) := by
  unfold requireAt
  split <;> infer_instance

instance (code : ErrorCode) (place : Span) (next : α → Compile β) :
    Still (failAt code place >>= next) where
  kept _ _ _ _ runs := by
    cases runs

instance : Still tree := by
  unfold tree
  infer_instance

instance (tree : Tree) : Still (setTree tree) where
  kept _ _ _ _ runs := by
    cases runs
    rfl

instance (change : Scope → Scope) : Still (modifyScope change) where
  kept _ _ _ _ runs := by
    cases runs
    rfl

instance (kind : ExprKind) (ty : Ty) (place : Span) : Still (addExpr kind ty place) := by
  unfold addExpr
  dsimp only
  infer_instance

instance (kind : StmtKind) (place : Span) : Still (addStmt kind place) := by
  unfold addStmt
  dsimp only
  infer_instance

instance (id : ExprId) : Still (typeOf id) := by
  unfold typeOf
  infer_instance

instance (id : ExprId) : Still (spanOf id) := by
  unfold spanOf
  infer_instance

instance (id : ExprId) (code : ErrorCode) : Still (constantValue id code) := by
  unfold constantValue
  infer_instance

instance (id : ExprId) (target : Ty) : Still (checkAssignable id target) := by
  unfold checkAssignable
  infer_instance

instance (name : String) : Still (resolveClass? name) := by
  unfold resolveClass?
  refine andThen fun context => andThen fun tree => ?_
  split <;> infer_instance

instance : Still atType := by
  unfold atType
  refine andThen fun token => ?_
  split <;> infer_instance

instance (ty : Ty) : Still (classOf? ty) := by
  unfold classOf?
  split <;> infer_instance

instance (declaring : ClassId) (visibility : Visibility) (place : Span) :
    Still (checkAccess declaring visibility place) := by
  unfold checkAccess
  infer_instance

instance (candidates : List MethodImpl) (types : List Ty) (place : Span) :
    Still (selectOverload candidates types place) := by
  unfold selectOverload
  infer_instance

instance (owner : ClassId) (place : Span) : Still (addThis owner place) := by
  unfold addThis
  infer_instance

instance (object : Option ExprId) (id : ClassId) (name : String) (place : Span) :
    Still (fieldAccess? object id name place) := by
  unfold fieldAccess?
  refine andThen fun state => ?_
  dsimp only
  split
  · split <;> infer_instance
  · refine andThen fun _ => andThen fun _ => ?_
    split <;> infer_instance

instance (object : ExprId) (id : ClassId) (name : String) (place : Span)
    (values : List ExprId) : Still (methodCall object id name place values) := by
  unfold methodCall
  refine andThen fun types => andThen fun tree => ?_
  dsimp only
  split
  · infer_instance
  · refine andThen fun overload => andThen fun chosen => ?_
    infer_instance

instance (name : String) (place : Span) (values : List ExprId) :
    Still (unqualifiedCall name place values) := by
  unfold unqualifiedCall
  refine andThen fun types => andThen fun whole => andThen fun state => ?_
  dsimp only
  split
  on_goal 1 =>
    refine andThen fun tree => ?_
    split
    · infer_instance
  -- What is no method of the receiver is a function of the host or of the program.
  all_goals
    refine andThen fun context => ?_
    split
    · infer_instance
    · refine andThen fun tree => ?_
      split
      · infer_instance
      · refine andThen fun overload => ?_
        split <;> infer_instance

instance (id : ClassId) (values : List ExprId) (place : Span) :
    Still (construction id values place) := by
  unfold construction
  refine andThen fun _ => andThen fun _ => ?_
  dsimp only
  split
  · infer_instance
  · refine andThen fun types => andThen fun _ => andThen fun _ => ?_
    split
    · infer_instance
    · split <;> infer_instance

instance (op : StepOp) (target : ExprId) (start : Span) : Still (addStep op target start) := by
  unfold addStep
  dsimp only
  infer_instance

instance (symbol : Symbol) (place : Span) (left right : ExprId) :
    Still (combine symbol place left right) := by
  unfold combine
  dsimp only
  refine andThen fun _ => andThen fun _ => andThen fun _ => andThen fun _ => ?_
  split <;> infer_instance

instance (size : ExprId) : Still (limitOf size) := by
  unfold limitOf
  refine andThen fun place => andThen fun ty => ?_
  dsimp only
  split
  · infer_instance
  · refine andThen fun constant => andThen fun value => ?_
    split
    · infer_instance
    · split <;> infer_instance

instance (name : String) (ty : Ty) (place : Span) : Still (declareVariable name ty place) where
  kept context state slot after runs := by
    unfold declareVariable at runs
    obtain ⟨_, _, looked, runs⟩ := bind_ok runs
    cases looked
    cases declared : state.scope.declare name ty with
    | error code =>
        rw [declared] at runs
        cases runs
    | ok found =>
        rw [declared] at runs
        cases runs
        rfl

instance (condition : ExprId) : Still (checkBoolean condition) := by
  unfold checkBoolean
  infer_instance

instance (id : ClassId) (change : ClassDef → ClassDef) : Still (modifyClass id change) := by
  unfold modifyClass
  infer_instance

end Still

/-! ## Steps from a position -/

/-- Wherever a step from a position succeeds, its end and its result meet a condition. -/
def Takes (context : CompileContext) (start : Nat) (ends : Nat → α → Prop) (step : Compile α) :
    Prop :=
  ∀ state value after, state.position = start → step context state = .ok (value, after) →
    ends after.position value

namespace Takes

variable {context : CompileContext} {start : Nat} {ends : Nat → β → Prop} {symbol : Symbol}

/-- A result that needs no step. -/
theorem pure
    {value : β}
    (holds : ends start value) :
    Takes context start ends (Pure.pure value) := by
  rintro state _ _ rfl ⟨⟩
  exact holds

/-- A step and what follows it. -/
theorem bind
    {M : Nat → α → Prop}
    {step : Compile α}
    {next : α → Compile β}
    (first : Takes context start M step)
    (rest : ∀ position value, M position value → Takes context position ends (next value)) :
    Takes context start ends (step >>= next) := by
  intro state result after starts runs
  obtain ⟨value, between, taken, goesOn⟩ := bind_ok runs
  exact rest _ _ (first _ _ _ starts taken) _ _ _ rfl goesOn

/-- A condition that says less of the result. -/
theorem weaken
    {M : Nat → β → Prop}
    {step : Compile β}
    (reads : Takes context start M step)
    (holds : ∀ stop value, M stop value → ends stop value) :
    Takes context start ends step :=
  fun state value after starts runs => holds _ _ (reads state value after starts runs)

/-- What follows a step that consumes no token. -/
theorem behind
    {step : Compile α}
    {next : α → Compile β}
    [stays : Still step]
    (rest : ∀ value, Takes context start ends (next value)) :
    Takes context start ends (step >>= next) := by
  intro state result after starts runs
  obtain ⟨value, between, taken, goesOn⟩ := bind_ok runs
  exact rest value _ _ _ ((stays.kept _ _ _ _ taken).trans starts) goesOn

/-- A step that consumes no token. -/
theorem still
    {step : Compile β}
    [stays : Still step]
    (holds : ∀ value, ends start value) :
    Takes context start ends step := by
  rintro state value after rfl runs
  rw [stays.kept _ _ _ _ runs]
  exact holds value

/-- A step that fails. -/
theorem failed
    {code : ErrorCode} :
    Takes context start ends (fail code) := by
  intro state value after _ runs
  obtain ⟨_, _, _, fails⟩ := bind_ok runs
  cases fails

/-- A step that fails at a place. -/
theorem failedAt
    {code : ErrorCode}
    {place : Span} :
    Takes context start ends (failAt code place) := by
  intro state value after _ runs
  cases runs

/-- Nothing follows a step that fails. -/
theorem failedThen
    {code : ErrorCode}
    {next : α → Compile β} :
    Takes context start ends (fail code >>= next) := by
  intro state value after _ runs
  obtain ⟨_, _, taken, -⟩ := bind_ok runs
  obtain ⟨_, _, _, fails⟩ := bind_ok taken
  cases fails

/-- Nothing follows a step that fails at a place. -/
theorem failedAtThen
    {code : ErrorCode}
    {place : Span}
    {next : α → Compile β} :
    Takes context start ends (failAt code place >>= next) := by
  intro state value after _ runs
  cases runs

/-- What follows a demand for a value. -/
theorem requiring
    {code : ErrorCode}
    {place : Span}
    {found : Option α}
    {next : α → Compile β}
    (rest : ∀ value, found = some value → Takes context start ends (next value)) :
    Takes context start ends (requireAt code place found >>= next) := by
  cases found with
  | none => exact failedAtThen
  | some value => exact rest value rfl

/-! ## Tokens at hand -/

/-- What follows a look at the token at hand. -/
theorem looking
    {next : Token → Compile β}
    (rest : Takes context start ends (next (context.token start))) :
    Takes context start ends (current >>= next) := by
  rintro state result after rfl runs
  exact rest state result after rfl runs

/-- What follows a look at the keyword or operator at hand. -/
theorem lookingFor
    {next : Option Symbol → Compile β}
    (rest : Takes context start ends (next (context.symbol? start))) :
    Takes context start ends (symbol? >>= next) := by
  rintro state result after rfl runs
  exact rest state result after rfl runs

/-- What follows a step to the next token. -/
theorem advancing
    {next : Unit → Compile β}
    (ended : context.Ended)
    (goesOn : context.GoesOn start)
    (rest : Takes context (start + 1) ends (next ())) :
    Takes context start ends (advance >>= next) := by
  intro state result after starts runs
  rw [bind_eq (advance_crosses ended goesOn state starts)] at runs
  exact rest _ _ _ rfl runs

/-- What follows a look for a symbol. -/
theorem lookingAt
    {next : Bool → Compile β}
    (there : context.symbol? start = some symbol → Takes context start ends (next true))
    (missing : context.symbol? start ≠ some symbol → Takes context start ends (next false)) :
    Takes context start ends (at' symbol >>= next) := by
  rintro state result after rfl runs
  have looked :
      at' symbol context state = .ok (context.symbol? state.position == some symbol, state) := rfl
  rw [bind_eq looked] at runs
  cases isThere : context.symbol? state.position == some symbol with
  | true =>
      rw [isThere] at runs
      exact there (beq_iff_eq.mp isThere) _ _ _ rfl runs
  | false =>
      rw [isThere] at runs
      exact missing (beq_eq_false_iff_ne.mp isThere) _ _ _ rfl runs

/-- What follows a symbol that may be there. -/
theorem eating
    {next : Bool → Compile β}
    (ended : context.Ended)
    (there : context.symbol? start = some symbol → Takes context (start + 1) ends (next true))
    (missing : context.symbol? start ≠ some symbol → Takes context start ends (next false)) :
    Takes context start ends (eat symbol >>= next) := by
  unfold eat
  rw [bind_assoc]
  refine lookingAt (fun isThere => ?_) fun isMissing => ?_
  · rw [if_pos rfl, bind_assoc]
    exact advancing ended (CompileContext.goesOn_of_symbol isThere) (there isThere)
  · exact missing isMissing

/-- What follows a symbol that must be there. -/
theorem expecting
    {code : ErrorCode}
    {next : Unit → Compile β}
    (ended : context.Ended)
    (there : context.symbol? start = some symbol → Takes context (start + 1) ends (next ())) :
    Takes context start ends (expect symbol code >>= next) := by
  unfold expect
  rw [bind_assoc]
  refine eating ended (fun isThere => ?_) fun _ => ?_
  · exact there isThere
  · exact failedThen

/-- What follows an identifier that must be there. -/
theorem identifying
    {code : ErrorCode}
    {next : String × Span → Compile β}
    (ended : context.Ended)
    (there : (context.token start).kind = .identifier →
      ∀ found, Takes context (start + 1) ends (next found)) :
    Takes context start ends (expectIdentifier code >>= next) := by
  unfold expectIdentifier
  rw [bind_assoc]
  refine looking ?_
  split
  · next isThere =>
    have isThere := eq_of_beq isThere
    rw [bind_assoc]
    exact advancing ended (by rw [CompileContext.GoesOn, isThere]; decide) (there isThere _)
  · exact failedThen

/-- An identifier that must be there is one token. -/
theorem identifier
    {code : ErrorCode}
    (ended : context.Ended) :
    Takes context start
      (fun stop _ => (context.token start).kind = .identifier ∧ stop = start + 1)
      (expectIdentifier code) := by
  have named :
      Takes context start
        (fun stop (_ : String × Span) =>
          (context.token start).kind = .identifier ∧ stop = start + 1)
        (expectIdentifier code >>= Pure.pure) :=
    identifying ended fun isName found => pure ⟨isName, rfl⟩
  rwa [bind_pure] at named

/-- What follows a name that must be there. -/
theorem naming
    {code : ErrorCode}
    {next : String × Span → Compile β}
    (ended : context.Ended)
    (there : (context.token start).kind = .identifier →
      ∀ found, Takes context (start + 1) ends (next found)) :
    Takes context start ends (expectName code >>= next) := by
  unfold expectName
  rw [bind_assoc]
  refine looking ?_
  split
  · exact failedThen
  · split
    · exact failedThen
    · exact identifying ended there
  · exact identifying ended there

/-! ## Loops -/

/-- A turn of a loop ends it with a result, or goes on with a state, that meets its condition. -/
def Meets (holds : Nat → σ → Prop) (ends : Nat → α → Prop) (stop : Nat) : Turn σ α → Prop
  | .again next => holds stop next
  | .done result => ends stop result

/-- A repeated step keeps what holds of the position and of the state of the loop. -/
theorem loop
    {H : Nat → σ → Prop}
    {step : σ → Compile (Turn σ β)}
    {first : σ}
    (starts : H start first)
    (turn : ∀ position next, H position next →
      Takes context position (Meets H ends) (step next)) :
    Takes context start ends (Compile.loop step first) := by
  have within (bound : Nat) :
      ∀ position next, H position next →
        Takes context position ends (loopWithin step bound next) := by
    induction bound with
    | zero => exact fun _ _ _ => failed
    | succ bound inductionHypothesis =>
        intro position next meets
        rw [loopWithin]
        refine (turn position next meets).bind fun stop turn kept => ?_
        cases turn with
        | again later => exact inductionHypothesis stop later kept
        | done result => exact pure kept
  exact behind fun count => within _ _ _ starts

end Takes

end Compile

end BotScript
