import BotScript.Proofs.Phrases

namespace BotScript

/-!
# Braces of statements

Every brace that a statement consumes has its counterpart.  This is a class, so that
a step is found to be one of them from the steps it consists of; what starts with a
known keyword, or stands in braces itself, is stated for the position at which it starts.
-/

namespace Compile

open CompileContext

variable {α β σ : Type} {context : CompileContext} {start stop close : Nat} {symbol : Symbol}

/-- Every brace that a step consumes has its counterpart. -/
class Balances (step : Compile α) : Prop where
  even :
    ∀ context, context.Ended → ∀ start,
      Takes context start (fun stop _ => context.Even Symbol.brace start stop) step

/-- A symbol is no brace where it is known not to be one. -/
instance : Fact (Bracket.plain = Bracket.plain) :=
  ⟨rfl⟩

/-- A token that is no brace. -/
theorem even_token
    (isThere : context.symbol? start = some symbol)
    [flat : Fact (symbol.brace = .plain)] :
    context.Even Symbol.brace start (start + 1) :=
  .single (.plain (goesOn_of_symbol isThere) ((bracket_of_symbol isThere).trans flat.out))

/-- A group in braces. -/
theorem even_group
    (opens : context.symbol? start = some .openBlock)
    (inner : context.Even Symbol.brace (start + 1) close)
    (closes : context.symbol? close = some .closeBlock) :
    context.Even Symbol.brace start (close + 1) :=
  .head (.opens (bracket_of_symbol opens))
    ((inner.lift 1).tail (.closes (bracket_of_symbol closes)))

/-- A range of braces between two others. -/
theorem Takes.extend
    {step : Compile β}
    {middle : Nat}
    (even : context.Even Symbol.brace start middle)
    (reads : Takes context middle (fun stop _ => context.Even Symbol.brace middle stop) step) :
    Takes context middle (fun stop _ => context.Even Symbol.brace start stop) step :=
  reads.weaken fun _ _ further => even.trans further

namespace Balances

/-! ## Steps of the monad -/

/-- What a step reads has its braces in pairs, and what follows it too. -/
theorem reads
    (step : Compile α)
    [balances : Balances step]
    (ended : context.Ended)
    (start : Nat) :
    Takes context start (fun stop _ => context.Even Symbol.brace start stop) step :=
  balances.even context ended start

instance (priority := low) ofStill (step : Compile α) [Still step] : Balances step where
  even _ _ _ := .still fun _ => .refl

instance bind (step : Compile α) (next : α → Compile β)
    [Balances step] [∀ value, Balances (next value)] :
    Balances (step >>= next) where
  even _ ended start :=
    (reads step ended start).bind fun position value even =>
      .extend even (reads (next value) ended position)

/-- A step goes on with such steps. -/
theorem andThen
    {step : Compile α}
    {next : α → Compile β}
    [Balances step]
    (rest : ∀ value, Balances (next value)) :
    Balances (step >>= next) :=
  bind step next

instance map (change : α → β) (step : Compile α) [Balances step] : Balances (change <$> step) :=
  bind step fun value => Pure.pure (change value)

instance ite (condition : Prop) [Decidable condition] (whenTrue whenFalse : Compile α)
    [Balances whenTrue] [Balances whenFalse] :
    Balances (if condition then whenTrue else whenFalse) := by
  split <;> assumption

instance loop (step : σ → Compile (Turn σ α)) [∀ state, Balances (step state)] (state : σ) :
    Balances (Compile.loop step state) where
  even context ended start := by
    refine Takes.loop (H := fun position _ => context.Even Symbol.brace start position) .refl
      fun position next even => ?_
    refine (reads (step next) ended position).weaken fun stop turn further => ?_
    cases turn with
    | again later => exact even.trans further
    | done result => exact even.trans further

/-- A repeated step. -/
theorem repeats
    {step : σ → Compile (Turn σ α)}
    {state : σ}
    (balances : ∀ state, Balances (step state)) :
    Balances (Compile.loop step state) :=
  inferInstance

instance failThen (code : ErrorCode) (next : α → Compile β) : Balances (fail code >>= next) where
  even _ _ _ := .failedThen

instance failAtThen (code : ErrorCode) (place : Span) (next : α → Compile β) :
    Balances (failAt code place >>= next) where
  even _ _ _ := .failedAtThen

/-! ## Tokens -/

instance eat (symbol : Symbol) [Fact (symbol.brace = .plain)] : Balances (Compile.eat symbol) where
  even context ended start := by
    have eaten : Takes context start (fun stop (_ : Bool) => context.Even Symbol.brace start stop)
        (Compile.eat symbol >>= Pure.pure) :=
      .eating ended (fun isThere => .pure (even_token isThere)) fun _ => .pure .refl
    rwa [bind_pure] at eaten

instance expect (symbol : Symbol) (code : ErrorCode) [Fact (symbol.brace = .plain)] :
    Balances (Compile.expect symbol code) := by
  unfold Compile.expect
  infer_instance

instance : Balances expectSemicolon := by
  unfold expectSemicolon
  infer_instance

instance (code : ErrorCode) : Balances (expectIdentifier code) where
  even _ ended _ := (Takes.identifier ended).weaken fun _ _ named =>
    named.2 ▸ Plain.even (.ofIdentifier named.1)

instance (code : ErrorCode) : Balances (expectName code) := by
  unfold expectName
  refine andThen fun token => ?_
  split <;> infer_instance

instance (ty : Ty) : Balances (arraySuffixes ty) := by
  unfold arraySuffixes
  infer_instance

instance : Balances parseType where
  even _ ended start := (parseType_phrase ended start).weaken fun _ _ read => read.2.braces

/-! ## Expressions and declarations -/

instance : Balances expression where
  even _ ended start := (expression_piece ended start).weaken fun _ _ piece =>
    (piece False False.elim).braces

instance (ty : Ty) : Balances (initializer expression ty) where
  even _ ended start :=
    (initializer_piece ended (expression_piece ended) ty start).weaken fun _ _ piece =>
      (piece False False.elim).braces

instance : Balances (arguments expression) where
  even _ ended start :=
    (arguments_phrase ended (expression_piece ended) start).weaken fun _ _ phrase => phrase.braces

instance : Balances parseLimits := by
  unfold parseLimits
  refine repeats fun limits => andThen fun isOpen => ?_
  split <;> infer_instance

instance (base : Ty) : Balances (declaredType base) := by
  unfold declaredType
  infer_instance

instance (ty : Ty) (place : Span) : Balances (initialValue ty place) := by
  unfold initialValue
  refine andThen fun found => ?_
  dsimp only
  split <;> infer_instance

instance : Balances declarations := by
  unfold declarations
  refine andThen fun place => andThen fun base => ?_
  dsimp only
  split
  · infer_instance
  · refine repeats fun collected => andThen fun name => ?_
    obtain ⟨name, place⟩ := name
    refine andThen fun declared => ?_
    obtain ⟨ty, limits⟩ := declared
    infer_instance

instance : Still atDeclaration := by
  unfold atDeclaration
  refine Preserves.andThen fun token => ?_
  split
  · infer_instance
  · refine Preserves.andThen fun kind => ?_
    split <;> infer_instance
  · infer_instance

instance : Balances declarationStatement := by
  unfold declarationStatement
  refine andThen fun start => andThen fun collected => andThen fun _ => ?_
  split <;> infer_instance

instance : Balances expressionStatement := by
  unfold expressionStatement
  infer_instance

instance : Balances condition := by
  unfold condition
  infer_instance

instance : Balances expressionList := by
  unfold expressionList
  infer_instance

instance : Balances loopStart := by
  unfold loopStart
  infer_instance

instance : Balances caseValue := by
  unfold caseValue
  infer_instance

/-! ## Statements -/

section Nested

variable (nested : Compile StmtId) [Balances nested]

/-- The statements of a block end with the brace that closes it. -/
theorem blockBody_reads
    (ended : context.Ended)
    (start : Nat) :
    Takes context start
      (fun stop _ => ∃ close, context.Even Symbol.brace start close ∧
        context.symbol? close = some .closeBlock ∧ stop = close + 1)
      (blockBody nested) := by
  unfold blockBody
  refine .loop (H := fun position _ => context.Even Symbol.brace start position) .refl
    fun position collected even => ?_
  refine .eating ended (fun closes => ?_) fun _ => ?_
  · rw [if_pos rfl]
    exact .pure ⟨position, even, closes, rfl⟩
  · rw [if_neg Bool.false_ne_true]
    refine .behind fun isEnd => ?_
    split
    · exact .failedThen
    · exact (reads nested ended position).bind fun stop id further => .pure (even.trans further)

instance : Balances (scopedBlock nested) where
  even _ ended start := by
    unfold scopedBlock
    refine .expecting ended fun opens => .behind fun _ => ?_
    refine (blockBody_reads nested ended _).bind ?_
    rintro _ statements ⟨close, inner, closes, rfl⟩
    exact .still fun _ => even_group opens inner closes

instance : Balances (block nested) := by
  unfold block
  infer_instance

instance (label : Option String) : Balances (loopBody nested label) := by
  unfold loopBody
  infer_instance

instance : Balances (catchClauses nested) := by
  unfold catchClauses
  refine repeats fun clauses => andThen fun start => andThen fun isCatch => ?_
  split
  · refine andThen fun _ => andThen fun test => andThen fun place => ?_
    infer_instance
  · infer_instance

/-- What starts with a keyword. -/
theorem head
    {next : Span → Unit → Compile β}
    (ended : context.Ended)
    (isThere : context.symbol? start = some symbol)
    [Fact (symbol.brace = .plain)]
    (rest : ∀ place, Balances (next place ())) :
    Takes context start (fun stop _ => context.Even Symbol.brace start stop)
      (span >>= fun place => advance >>= next place) := by
  refine .behind fun place => .advancing ended (goesOn_of_symbol isThere) ?_
  have := rest place
  exact .extend (even_token isThere) (reads _ ended _)

/-- A branch. -/
theorem branch_even
    (ended : context.Ended)
    (isThere : context.symbol? start = some .ifKw) :
    Takes context start (fun stop _ => context.Even Symbol.brace start stop) (branch nested) :=
  head ended isThere fun _ => inferInstance

/-- A loop with its test in front. -/
theorem whileLoop_even
    (label : Option String)
    (ended : context.Ended)
    (isThere : context.symbol? start = some .whileKw) :
    Takes context start (fun stop _ => context.Even Symbol.brace start stop)
      (whileLoop nested label) :=
  head ended isThere fun _ => inferInstance

/-- A loop with its test at the end. -/
theorem doLoop_even
    (label : Option String)
    (ended : context.Ended)
    (isThere : context.symbol? start = some .doKw) :
    Takes context start (fun stop _ => context.Even Symbol.brace start stop)
      (doLoop nested label) :=
  head ended isThere fun _ => inferInstance

/-- A loop with a start, a test and steps. -/
theorem forLoop_even
    (label : Option String)
    (ended : context.Ended)
    (isThere : context.symbol? start = some .forKw) :
    Takes context start (fun stop _ => context.Even Symbol.brace start stop)
      (forLoop nested label) := by
  refine head ended isThere fun place => ?_
  refine andThen fun _ => andThen fun _ => andThen fun initial => andThen fun _ => ?_
  have rest (test : Option ExprId) :
      Balances (do
        expectSemicolon
        let steps ← if ← at' .closePar then pure [] else expressionList
        Compile.expect .closePar .closePar
        let body ← loopBody nested label
        let statement ← addStmt (.forLoop label initial test steps body) (← spanFrom place)
        modifyScope Scope.popBlock
        return statement) := by
    refine andThen fun _ => andThen fun isDone => ?_
    dsimp only
    split <;> infer_instance
  refine andThen fun isDone => ?_
  dsimp only
  split
  · exact andThen rest
  · refine andThen fun value => andThen fun _ => ?_
    exact andThen rest

/-- A loop with a number of rounds. -/
theorem repeatLoop_even
    (label : Option String)
    (ended : context.Ended)
    (isThere : context.symbol? start = some .repeatKw) :
    Takes context start (fun stop _ => context.Even Symbol.brace start stop)
      (repeatLoop nested label) := by
  refine head ended isThere fun place => andThen fun _ => andThen fun isMissing => ?_
  dsimp only
  split
  · infer_instance
  · refine andThen fun count => andThen fun ty => ?_
    split <;> infer_instance

/-- A loop with a label in front, which is an identifier and a colon. -/
theorem labeledLoop_even
    (ended : context.Ended)
    (isName : (context.token start).kind = .identifier)
    (isColon : context.symbol? (start + 1) = some .colon) :
    Takes context start (fun stop _ => context.Even Symbol.brace start stop)
      (labeledLoop nested) := by
  have named : context.Even Symbol.brace start (start + 2) :=
    (Plain.even (.ofIdentifier isName)).trans
      (even_token isColon)
  unfold labeledLoop
  refine .behind fun label => .advancing ended (by rw [GoesOn, isName]; decide) ?_
  refine .advancing ended (goesOn_of_symbol isColon) (.lookingFor ?_)
  split
  · next isThere => exact .extend named (whileLoop_even nested _ ended isThere)
  · next isThere => exact .extend named (doLoop_even nested _ ended isThere)
  · next isThere => exact .extend named (forLoop_even nested _ ended isThere)
  · next isThere => exact .extend named (repeatLoop_even nested _ ended isThere)
  · exact .failed

/-- The labels and statements of a switch end with the brace that closes it. -/
theorem switchBody_reads
    (ended : context.Ended)
    (start : Nat) :
    Takes context start
      (fun stop _ => ∃ close, context.Even Symbol.brace start close ∧
        context.symbol? close = some .closeBlock ∧ stop = close + 1)
      (switchBody nested) := by
  unfold switchBody
  refine .loop (H := fun position _ => context.Even Symbol.brace start position) .refl ?_
  rintro position ⟨cases, body⟩ even
  refine .eating ended (fun closes => ?_) fun _ => ?_
  · rw [if_pos rfl]
    exact .pure ⟨position, even, closes, rfl⟩
  · rw [if_neg Bool.false_ne_true]
    refine .behind fun isEnd => ?_
    dsimp only
    split
    · exact .failedThen
    · refine .behind fun label => .eating ended (fun isCase => ?_) fun _ => ?_
      · rw [if_pos rfl]
        refine (reads caseValue ended _).bind fun stop value further => ?_
        have read := (even.trans (even_token isCase)).trans further
        refine .expecting ended fun isColon => ?_
        split
        · exact .failedAtThen
        · exact .pure (read.trans (even_token isColon))
      · rw [if_neg Bool.false_ne_true]
        refine .eating ended (fun isDefault => ?_) fun _ => ?_
        · rw [if_pos rfl]
          refine .expecting ended fun isColon => ?_
          split
          · exact .failedAtThen
          · exact .pure ((even.trans (even_token isDefault)).trans (even_token isColon))
        · rw [if_neg Bool.false_ne_true]
          split
          · exact .failedThen
          · exact (reads nested ended position).bind fun stop id further =>
              .pure (even.trans further)

/-- A switch. -/
theorem switchOn_even
    (ended : context.Ended)
    (isThere : context.symbol? start = some .switchKw) :
    Takes context start (fun stop _ => context.Even Symbol.brace start stop) (switchOn nested) := by
  refine head ended isThere fun place => andThen fun _ => andThen fun value => ?_
  refine andThen fun ty => ?_
  dsimp only
  split
  · exact andThen fun _ => inferInstance
  · refine andThen fun _ => ?_
    constructor
    intro context ended start
    refine .expecting ended fun opens => .behind fun _ => ?_
    refine (switchBody_reads nested ended _).bind ?_
    rintro _ ⟨cases, body⟩ ⟨close, inner, closes, rfl⟩
    exact .still fun _ => even_group opens inner closes

/-- A guarded block with its handlers. -/
theorem guarded_even
    (ended : context.Ended)
    (isThere : context.symbol? start = some .tryKw) :
    Takes context start (fun stop _ => context.Even Symbol.brace start stop) (guarded nested) := by
  refine head ended isThere fun place => andThen fun body => andThen fun clauses => ?_
  refine andThen fun isFinal => ?_
  dsimp only
  split <;> infer_instance

end Nested

/-- A thrown exception. -/
theorem throwStatement_even
    (ended : context.Ended)
    (isThere : context.symbol? start = some .throwKw) :
    Takes context start (fun stop _ => context.Even Symbol.brace start stop) throwStatement :=
  head ended isThere fun _ => inferInstance

/-- A return from the function. -/
theorem returnStatement_even
    (ended : context.Ended)
    (isThere : context.symbol? start = some .returnKw) :
    Takes context start (fun stop _ => context.Even Symbol.brace start stop) returnStatement := by
  refine head ended isThere fun place => andThen fun state => ?_
  dsimp only
  refine andThen fun isBare => ?_
  split
  all_goals
    refine andThen fun value => ?_
    split <;> infer_instance

/-- A jump. -/
theorem jump_even
    (isContinue : Bool)
    (ended : context.Ended)
    (isThere : context.symbol? start = some symbol)
    [Fact (symbol.brace = .plain)] :
    Takes context start (fun stop _ => context.Even Symbol.brace start stop) (jump isContinue) := by
  refine head ended isThere fun place => ⟨fun context ended start => ?_⟩
  have rest (label : Option String) : Balances (do
      checkAt (← spanFrom place) ((← get).scope.checkJump label isContinue)
      expectSemicolon
      addStmt (if isContinue then .continueTo label else .breakTo label) (← spanFrom place)) := by
    infer_instance
  unfold atIdentifier
  rw [bind_assoc]
  refine .looking ?_
  dsimp only
  rw [pure_bind]
  split
  · next isName =>
    have named : context.Plain start := .ofIdentifier (eq_of_beq isName)
    refine .behind fun name => .advancing ended named.goesOn ?_
    exact .extend named.even
      (reads _ ended _)
  · exact reads _ ended start

/-! ## Nested statements -/

/-- What follows a look at the kind of the next token. -/
theorem lookingAhead
    {ends : Nat → β → Prop}
    {next : TokenKind → Compile β}
    (ended : context.Ended)
    (goesOn : context.GoesOn start)
    (rest : Takes context start ends (next (context.token (start + 1)).kind)) :
    Takes context start ends (nextKind >>= next) := by
  rintro state result after rfl runs
  have looked :
      nextKind context state = .ok ((context.token (state.position + 1)).kind, state) := by
    have found : nextKind context state =
        .ok ((context.token (if state.position + 1 < context.tokens.size then
          state.position + 1 else state.position)).kind, state) := rfl
    rw [found, if_pos (ended.lt_size goesOn)]
  rw [bind_eq looked] at runs
  exact rest _ _ _ rfl runs

/-- A statement that starts with a symbol. -/
theorem symbolStatement_even
    (nested : Compile StmtId)
    [Balances nested]
    (ended : context.Ended)
    (isThere : context.symbol? start = some symbol) :
    Takes context start (fun stop _ => context.Even Symbol.brace start stop)
      (symbolStatement nested symbol) := by
  unfold symbolStatement
  split
  · exact reads _ ended start
  · exact branch_even nested ended isThere
  · exact whileLoop_even nested none ended isThere
  · exact doLoop_even nested none ended isThere
  · exact forLoop_even nested none ended isThere
  · exact repeatLoop_even nested none ended isThere
  · exact switchOn_even nested ended isThere
  · exact guarded_even nested ended isThere
  · exact throwStatement_even ended isThere
  · exact returnStatement_even ended isThere
  · exact jump_even false ended isThere
  · exact jump_even true ended isThere
  · exact .failed
  · exact .failed
  · exact .failed
  · exact head ended isThere fun _ => inferInstance
  · split <;> exact reads _ ended start

instance (nested : Compile StmtId) [Balances nested] : Balances (statementWith nested) where
  even context ended start := by
    unfold statementWith
    refine .looking ?_
    split
    · next symbol isKind =>
      exact symbolStatement_even nested ended (symbol_of_kind isKind)
    · next isName =>
      refine lookingAhead ended (by rw [GoesOn, isName]; decide) ?_
      split
      · next isColon =>
        exact labeledLoop_even nested ended isName (symbol_of_kind (eq_of_beq isColon))
      · refine .behind fun isDeclaration => ?_
        split <;> exact reads _ ended start
    · exact reads _ ended start

instance : Balances statement where
  even context ended start := by
    have within (bound : Nat) : Balances (statementWithin bound) := by
      induction bound with
      | zero => exact inferInstanceAs (Balances (fail _))
      | succ bound inductionHypothesis => exact inferInstanceAs (Balances (statementWith _))
    unfold statement
    exact .behind fun count => reads _ ended start

/-- The body of a function is a group in braces. -/
theorem functionBlock_reads
    (ended : context.Ended)
    (start : Nat) :
    Takes context start
      (fun stop _ => ∃ close, context.symbol? start = some .openBlock ∧
        context.Even Symbol.brace (start + 1) close ∧
        context.symbol? close = some .closeBlock ∧ stop = close + 1)
      functionBlock := by
  unfold functionBlock
  refine .behind fun place => .expecting ended fun opens => ?_
  refine (blockBody_reads statement ended _).bind ?_
  rintro _ statements ⟨close, inner, closes, rfl⟩
  exact .still fun _ => ⟨close, opens, inner, closes, rfl⟩

end Balances

end Compile

end BotScript
