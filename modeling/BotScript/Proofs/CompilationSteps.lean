import BotScript.Compile.Program

namespace BotScript

/-!
# Compilation steps over tokens

Most compilation steps read tokens: they may move on in the token list, but they
change nothing else.  This is a class, so that a step is found to be one of them
from the steps it consists of.  What a step may lead to is stated by a condition
on its result and on the state behind it.
-/

/-- The token at a position; outside the list it is the mark of the end. -/
def CompileContext.token (context : CompileContext) (position : Nat) : Token :=
  (context.tokens[position]?).getD Compile.noToken

/-- The last token marks the end of the text. -/
def CompileContext.Ended (context : CompileContext) : Prop :=
  ∀ token, context.tokens[context.tokens.size - 1]? = some token → token.kind = .endOfText

/-- A token in front of the end is followed by another one. -/
theorem CompileContext.Ended.lt_size
    {context : CompileContext}
    (ended : context.Ended)
    {position : Nat}
    (goesOn : (context.token position).kind ≠ .endOfText) :
    position + 1 < context.tokens.size := by
  unfold token at goesOn
  cases found : context.tokens[position]? with
  | none =>
      rw [found] at goesOn
      exact absurd rfl goesOn
  | some token =>
      rw [found] at goesOn
      obtain ⟨inside, -⟩ := Array.getElem?_eq_some_iff.mp found
      have isInner : position ≠ context.tokens.size - 1 := by
        rintro rfl
        exact goesOn (ended token found)
      omega

/-- The position behind another one; there is none behind the end. -/
def CompileContext.next (context : CompileContext) (position : Nat) : Nat :=
  if position + 1 < context.tokens.size then position + 1 else position

/-- Only the position has changed, and not backwards. -/
structure CompileState.Strode
    (context : CompileContext) (before after : CompileState) :
    Prop where
  tree : after.tree = before.tree
  scope : after.scope = before.scope
  position : before.position ≤ after.position
  inside :
    before.position ≤ context.tokens.size - 1 → after.position ≤ context.tokens.size - 1

namespace CompileState.Strode

variable {context : CompileContext} {before between after : CompileState}

/-- Nothing has changed. -/
theorem refl : Strode context before before :=
  ⟨rfl, rfl, Nat.le_refl _, id⟩

/-- The position has changed twice. -/
theorem trans
    (first : Strode context before between)
    (second : Strode context between after) :
    Strode context before after :=
  ⟨second.tree.trans first.tree, second.scope.trans first.scope,
    Nat.le_trans first.position second.position, second.inside ∘ first.inside⟩

end CompileState.Strode

namespace Compile

variable {α β σ : Type}

/-- A step behind another one starts where that one ended. -/
theorem bind_ok
    {step : Compile α}
    {next : α → Compile β}
    {context : CompileContext}
    {state after : CompileState}
    {value : β}
    (runs : (step >>= next) context state = .ok (value, after)) :
    ∃ middle between,
      step context state = .ok (middle, between) ∧
        next middle context between = .ok (value, after) := by
  change (step context state >>= fun result => next result.1 context result.2) = _ at runs
  cases taken : step context state with
  | error error =>
      rw [taken] at runs
      cases runs
  | ok result =>
      rw [taken] at runs
      exact ⟨result.1, result.2, rfl, runs⟩

/-- A step that reads tokens and changes nothing but the position. -/
class Strides (step : Compile α) : Prop where
  strode :
    ∀ context state value after, step context state = .ok (value, after) →
      CompileState.Strode context state after

namespace Strides

/-! ## Steps of the monad -/

instance pure (value : α) : Strides (Pure.pure value : Compile α) where
  strode _ _ _ _ runs := by
    cases runs
    exact .refl

instance bind (step : Compile α) (next : α → Compile β)
    [first : Strides step] [rest : ∀ value, Strides (next value)] :
    Strides (step >>= next) where
  strode context state value after runs := by
    obtain ⟨middle, between, taken, goesOn⟩ := bind_ok runs
    exact (first.strode _ _ _ _ taken).trans ((rest middle).strode _ _ _ _ goesOn)

instance map (change : α → β) (step : Compile α) [Strides step] : Strides (change <$> step) :=
  bind step fun value => Pure.pure (change value)

instance ite (condition : Prop) [Decidable condition] (whenTrue whenFalse : Compile α)
    [Strides whenTrue] [Strides whenFalse] :
    Strides (if condition then whenTrue else whenFalse) := by
  split <;> assumption

instance read : Strides (MonadReader.read : Compile CompileContext) where
  strode _ _ _ _ runs := by
    cases runs
    exact .refl

instance get : Strides (MonadState.get : Compile CompileState) where
  strode _ _ _ _ runs := by
    cases runs
    exact .refl

instance failAt (code : ErrorCode) (place : Span) :
    Strides (Compile.failAt code place : Compile α) where
  strode _ _ _ _ runs := by
    cases runs

instance failAtBind (code : ErrorCode) (place : Span) (next : α → Compile β) :
    Strides (Compile.failAt code place >>= next) where
  strode _ _ _ _ runs := by
    cases runs

/-- A step over tokens goes on with such steps. -/
theorem andThen
    {step : Compile α}
    {next : α → Compile β}
    [Strides step]
    (rest : ∀ value, Strides (next value)) :
    Strides (step >>= next) :=
  bind step next

end Strides

/-! ## Steps over tokens -/

instance : Strides tokenCount := by
  unfold tokenCount
  infer_instance

instance (position : Nat) : Strides (tokenAt position) := by
  unfold tokenAt
  infer_instance

instance : Strides current := by
  unfold current
  infer_instance

instance : Strides symbol? := by
  unfold symbol?
  infer_instance

instance : Strides span := by
  unfold span
  infer_instance

instance : Strides text := by
  unfold text
  infer_instance

instance : Strides previousSpan := by
  unfold previousSpan
  refine Strides.andThen fun state => ?_
  split <;> infer_instance

instance (start : Span) : Strides (spanFrom start) := by
  unfold spanFrom
  infer_instance

instance : Strides atEnd := by
  unfold atEnd
  infer_instance

instance (symbol : Symbol) : Strides (at' symbol) := by
  unfold at'
  infer_instance

instance (symbols : List Symbol) : Strides (atAny symbols) := by
  unfold atAny
  refine Strides.andThen fun found => ?_
  split <;> infer_instance

instance : Strides atIdentifier := by
  unfold atIdentifier
  infer_instance

instance : Strides nextKind := by
  unfold nextKind
  infer_instance

instance : Strides advance where
  strode context state value after runs := by
    cases runs
    dsimp only
    split
    · next goesOn => exact ⟨rfl, rfl, Nat.le_succ _, fun _ => Nat.le_sub_one_of_lt goesOn⟩
    · exact .refl

instance (code : ErrorCode) : Strides (fail code : Compile α) := by
  unfold fail
  infer_instance

instance (code : ErrorCode) (next : α → Compile β) : Strides (fail code >>= next) where
  strode _ _ _ _ runs := by
    obtain ⟨_, _, taken, -⟩ := bind_ok runs
    cases taken

instance (place : Span) (result : Except ErrorCode α) : Strides (checkAt place result) := by
  unfold checkAt
  split <;> infer_instance

instance (code : ErrorCode) (place : Span) (value : Option α) :
    Strides (requireAt code place value) := by
  unfold requireAt
  split <;> infer_instance

instance (symbol : Symbol) : Strides (eat symbol) := by
  unfold eat
  infer_instance

instance (symbols : List Symbol) : Strides (eatAny? symbols) := by
  unfold eatAny?
  refine Strides.andThen fun found => ?_
  split <;> infer_instance

instance (symbol : Symbol) (code : ErrorCode) : Strides (expect symbol code) := by
  unfold expect
  infer_instance

instance (code : ErrorCode) : Strides (expectIdentifier code) := by
  unfold expectIdentifier
  infer_instance

instance (code : ErrorCode) : Strides (expectName code) := by
  unfold expectName
  refine Strides.andThen fun token => ?_
  split <;> infer_instance

instance : Strides expectSemicolon := by
  unfold expectSemicolon
  infer_instance

instance (step : σ → Compile (Turn σ α)) [strides : ∀ state, Strides (step state)]
    (bound : Nat) (state : σ) :
    Strides (loopWithin step bound state) := by
  induction bound generalizing state with
  | zero => exact inferInstanceAs (Strides (fail _))
  | succ bound inductionHypothesis =>
      unfold loopWithin
      refine @Strides.bind _ _ _ _ (strides state) fun turn => ?_
      cases turn with
      | again state => exact inductionHypothesis state
      | done result => exact Strides.pure result

instance (step : σ → Compile (Turn σ α)) [∀ state, Strides (step state)] (state : σ) :
    Strides (loop step state) := by
  unfold loop
  infer_instance

/-- A repeated step over tokens. -/
theorem Strides.repeats
    {step : σ → Compile (Turn σ α)}
    {state : σ}
    (strides : ∀ state, Strides (step state)) :
    Strides (loop step state) :=
  inferInstance

instance : Strides skipBlock := by
  unfold skipBlock
  refine Strides.repeats fun depth => Strides.andThen fun found => ?_
  split <;> infer_instance

instance : Strides skipToBody := by
  unfold skipToBody
  refine Strides.repeats fun _ => Strides.andThen fun found => ?_
  split <;> infer_instance

instance : Strides skipInitializer := by
  unfold skipInitializer
  refine Strides.repeats fun depth => Strides.andThen fun found => ?_
  split <;> infer_instance

instance : Strides skipBody := by
  unfold skipBody
  infer_instance

instance : Strides parseModifiers := by
  unfold parseModifiers
  refine Strides.repeats fun modifiers => Strides.andThen fun found => ?_
  split <;> infer_instance

/-- A symbol that may be there is consumed or is not there. -/
theorem eat_ok
    {symbol : Symbol}
    {context : CompileContext}
    {state after : CompileState}
    {taken : Bool}
    (runs : eat symbol context state = .ok (taken, after)) :
    taken = true ∧ (context.token state.position).symbol? = some symbol ∧
        after = { state with position := context.next state.position } ∨
      taken = false ∧ (context.token state.position).symbol? ≠ some symbol ∧ after = state := by
  unfold eat at runs
  obtain ⟨isThere, between, looked, runs⟩ := bind_ok runs
  cases looked
  split at runs
  · next isThere =>
      cases runs
      refine .inl ⟨rfl, eq_of_beq isThere, ?_⟩
      dsimp only [CompileContext.next]
      split <;> rfl
  · next isMissing =>
      cases runs
      exact .inr ⟨rfl, fun isThere => isMissing (beq_iff_eq.mpr isThere), rfl⟩

/-- A symbol is not the end of the text. -/
theorem next_of_symbol
    {context : CompileContext}
    {position : Nat}
    {symbol : Symbol}
    (ended : context.Ended)
    (isSymbol : (context.token position).symbol? = some symbol) :
    context.next position = position + 1 := by
  refine if_pos (ended.lt_size fun isEnd => ?_)
  simp [Token.symbol?, isEnd] at isSymbol

/-! ## Steps that read the tree -/

instance : Strides tree := by
  unfold tree
  infer_instance

instance (id : ExprId) : Strides (typeOf id) := by
  unfold typeOf
  infer_instance

instance (id : ExprId) : Strides (spanOf id) := by
  unfold spanOf
  infer_instance

instance (id : ExprId) (code : ErrorCode) : Strides (constantValue id code) := by
  unfold constantValue
  infer_instance

instance (id : ExprId) (target : Ty) : Strides (checkAssignable id target) := by
  unfold checkAssignable
  infer_instance

instance (ty : Ty) : Strides (classOf? ty) := by
  unfold classOf?
  split <;> infer_instance

instance (declaring : ClassId) (visibility : Visibility) (place : Span) :
    Strides (checkAccess declaring visibility place) := by
  unfold checkAccess
  infer_instance

instance (candidates : List MethodImpl) (types : List Ty) (place : Span) :
    Strides (selectOverload candidates types place) := by
  unfold selectOverload
  infer_instance

instance (ty : Ty) : Strides (arraySuffixes ty) := by
  unfold arraySuffixes
  infer_instance

instance (size : ExprId) : Strides (limitOf size) := by
  unfold limitOf
  refine Strides.andThen fun place => Strides.andThen fun ty => ?_
  dsimp only
  split
  · infer_instance
  · refine Strides.andThen fun constant => Strides.andThen fun value => ?_
    split
    · infer_instance
    · split <;> infer_instance

instance (condition : ExprId) : Strides (checkBoolean condition) := by
  unfold checkBoolean
  infer_instance

end Compile

end BotScript
