import BotScript.Proofs.CompilationSteps
import BotScript.Proofs.Formulas

namespace BotScript

/-!
# Compilation steps that go through

What a compilation step does where it succeeds, given the lexemes at hand: which
tokens it consumes and which expressions it adds.  A symbol that does not go on
with an expression ends it, so that the steps of looser levels leave it as it is.
-/

/-! ## Lexemes at hand -/

namespace CompileContext

variable {context : CompileContext} {position : Nat}

/-- The tokens from a position on begin with some lexemes. -/
def Spells (context : CompileContext) (position : Nat) (lexemes : List Lexeme) : Prop :=
  lexemes <+: (context.tokens.toList.drop position).map Token.lexeme

/-- The first lexeme is that of the token at hand, and the others follow. -/
theorem Spells.cons
    {lexeme : Lexeme}
    {rest : List Lexeme}
    (spelled : context.Spells position (lexeme :: rest)) :
    (position < context.tokens.size ∧ (context.token position).lexeme = lexeme) ∧
      context.Spells (position + 1) rest := by
  have inside : position < context.tokens.size := by
    refine Nat.lt_of_not_le fun outside => ?_
    rw [Spells, List.drop_eq_nil_of_le (by simpa using outside)] at spelled
    simp at spelled
  have isThere : context.token position = context.tokens[position] := by
    simp [CompileContext.token, inside]
  rw [Spells, List.drop_eq_getElem_cons (by simpa using inside), List.map_cons,
    List.cons_prefix_cons, Array.getElem_toList] at spelled
  exact ⟨⟨inside, isThere ▸ spelled.1.symm⟩, spelled.2⟩

/-- Lexemes follow each other. -/
theorem Spells.append
    {first rest : List Lexeme}
    (spelled : context.Spells position (first ++ rest)) :
    context.Spells position first ∧ context.Spells (position + first.length) rest := by
  refine ⟨(List.prefix_append first rest).trans spelled, ?_⟩
  obtain ⟨others, isAll⟩ := spelled
  refine ⟨others, ?_⟩
  rw [← List.drop_drop, List.map_drop, ← isAll, List.append_assoc, List.drop_left]

end CompileContext

/-! ## What ends a formula -/

namespace Compile

/-- The symbols that go on with a primary expression. -/
def suffixes : List Symbol :=
  [.dot, .openBracket, .increment, .decrement, .openPar]

/-- Whether a symbol goes on with an expression that is read at a level. -/
def goesOn (level : Nat) (symbol : Symbol) : Bool :=
  suffixes.contains symbol ||
    (level ≤ Formula.levelOf symbol && Formula.levelOf symbol < Formula.prefixLevel) ||
    (level == 0 && (symbol == .question || symbol.isAssignment))

/-- The operators of a level are not among those of another one. -/
theorem levelOf_of_mem :
    ∀ (index : Nat) (inside : index < levels.length),
      ∀ symbol ∈ levels[index], Formula.levelOf symbol = index + 1 := by
  decide

/-- A binary operator is among those of its level. -/
theorem mem_of_levelOf
    {symbol : Symbol}
    {index : Nat}
    (inside : index < levels.length)
    (level : Formula.levelOf symbol = index + 1) :
    symbol ∈ levels[index] := by
  have found : levels.findIdx (·.contains symbol) = index := Nat.succ.inj level
  subst found
  have holds :=
    List.findIdx_getElem (p := fun operators : List Symbol => operators.contains symbol)
      (w := inside)
  exact List.contains_iff_mem.mp holds

/-- No suffix is a binary operator. -/
theorem levelOf_of_suffix :
    ∀ symbol ∈ suffixes, Formula.levelOf symbol = Formula.prefixLevel := by
  decide

end Compile

/-- The token at a position does not go on with an expression that is read at a level. -/
structure CompileContext.Stops (context : CompileContext) (level position : Nat) : Prop where
  inside : position < context.tokens.size
  stops :
    ∀ symbol, (context.token position).symbol? = some symbol →
      Compile.goesOn level symbol = false

namespace CompileContext.Stops

variable {context : CompileContext} {level position : Nat}

/-- What ends an expression also ends a tighter one. -/
theorem mono
    {tighter : Nat}
    (stops : context.Stops level position)
    (le : level ≤ tighter) :
    context.Stops tighter position := by
  refine ⟨stops.inside, fun symbol isThere => ?_⟩
  have := stops.stops symbol isThere
  simp only [Compile.goesOn, Bool.or_eq_false_iff, Bool.and_eq_false_iff, decide_eq_false_iff_not,
    beq_eq_false_iff_ne] at this ⊢
  obtain ⟨⟨noSuffix, noOperator⟩, noOther⟩ := this
  refine ⟨⟨noSuffix, ?_⟩, ?_⟩ <;> grind

/-- A symbol that does not go on with an expression ends it. -/
theorem ofSymbol
    {symbol : Symbol}
    (inside : position < context.tokens.size)
    (written : (context.token position).lexeme = .ofSymbol symbol)
    (ends : Compile.goesOn level symbol = false) :
    context.Stops level position := by
  refine ⟨inside, fun other isThere => ?_⟩
  rw [Token.symbol?_of_lexeme written] at isThere
  cases isThere
  exact ends

/-- No suffix follows. -/
theorem not_suffix
    (stops : context.Stops level position)
    {symbol : Symbol}
    (isThere : (context.token position).symbol? = some symbol) :
    symbol ∉ Compile.suffixes := by
  have := stops.stops symbol isThere
  simp only [Compile.goesOn, Bool.or_eq_false_iff] at this
  simpa using this.1.1

/-- No operator of the level follows. -/
theorem not_operator
    {index : Nat}
    (inside : index < Compile.levels.length)
    (stops : context.Stops (index + 1) position)
    {symbol : Symbol}
    (isThere : (context.token position).symbol? = some symbol) :
    symbol ∉ Compile.levels[index] := by
  intro isOperator
  have level := Compile.levelOf_of_mem index inside symbol isOperator
  have := stops.stops symbol isThere
  simp only [Compile.goesOn, level, Formula.prefixLevel] at this
  simp [inside] at this

end CompileContext.Stops

/-! ## Steps that go through -/

namespace Compile

variable {α β : Type} {context : CompileContext} {state : CompileState}

/-- A step that goes through is followed by the next one. -/
theorem bind_eq
    {step : Compile α}
    {next : α → Compile β}
    {between : CompileState}
    {value : α}
    (taken : step context state = .ok (value, between)) :
    (step >>= next) context state = next value context between := by
  change (step context state >>= fun result => next result.1 context result.2) = _
  rw [taken]
  rfl

/-- The next token is moved to. -/
theorem advance_eq
    (inside : state.position + 1 < context.tokens.size) :
    advance context state = .ok ((), state.read 1 #[]) := by
  have moved :
      advance context state =
        .ok ((), if state.position + 1 < context.tokens.size then
          { state with position := state.position + 1 } else state) :=
    rfl
  rw [moved, if_pos inside]
  simp [CompileState.read, Tree.withExprs]

/-- A symbol that is there is consumed. -/
theorem eat_there
    {symbol : Symbol}
    (inside : state.position + 1 < context.tokens.size)
    (isThere : (context.token state.position).symbol? = some symbol) :
    eat symbol context state = .ok (true, state.read 1 #[]) := by
  have looked :
      at' symbol context state = .ok (true, state) := by
    change Except.ok ((context.token state.position).symbol? == some symbol, state) = _
    rw [isThere, beq_self_eq_true]
  unfold eat
  rw [bind_eq looked, if_pos rfl, bind_eq (advance_eq inside)]
  rfl

/-- A symbol that is not there is not consumed. -/
theorem eat_missing
    {symbol : Symbol}
    (isMissing : (context.token state.position).symbol? ≠ some symbol) :
    eat symbol context state = .ok (false, state) := by
  have looked :
      at' symbol context state = .ok (false, state) := by
    change Except.ok ((context.token state.position).symbol? == some symbol, state) = _
    rw [beq_eq_false_iff_ne.mpr isMissing]
  unfold eat
  rw [bind_eq looked]
  rfl

/-- A symbol that is expected and there is consumed. -/
theorem expect_there
    {symbol : Symbol}
    {code : ErrorCode}
    (inside : state.position + 1 < context.tokens.size)
    (isThere : (context.token state.position).symbol? = some symbol) :
    expect symbol code context state = .ok ((), state.read 1 #[]) := by
  unfold expect
  rw [bind_eq (eat_there inside isThere)]
  rfl

/-- A value that must be there is there. -/
theorem requireAt_eq
    {code : ErrorCode}
    {place : Span}
    (value : α) :
    requireAt code place (some value) context state = .ok (value, state) :=
  rfl

/-- The root of a formula's tree has the type of the formula. -/
theorem typeOf_eq
    {scope : Scope}
    {formula : Formula}
    {id : ExprId}
    {ty : Ty}
    (shown : state.tree.Shows scope formula id ty) :
    typeOf id context state = .ok (ty, state) := by
  rw [← shown.node_ty]
  rfl

/-- The token before the current one has a place, also where there is none. -/
theorem previousSpan_eq (context : CompileContext) (state : CompileState) :
    ∃ place, previousSpan context state = .ok (place, state) := by
  have now : (get : Compile CompileState) context state = .ok (state, state) := rfl
  unfold previousSpan
  rw [bind_eq now]
  cases state.position with
  | zero => exact ⟨Span.none, rfl⟩
  | succ position => exact ⟨(context.token position).span, rfl⟩

/-- The place of what has been consumed is found. -/
theorem spanFrom_eq (context : CompileContext) (state : CompileState) (start : Span) :
    ∃ whole, spanFrom start context state = .ok (whole, state) := by
  obtain ⟨place, found⟩ := previousSpan_eq context state
  unfold spanFrom
  exact ⟨start.merge place, bind_eq found⟩

/-- An expression is added behind the others. -/
theorem addExpr_eq (kind : ExprKind) (ty : Ty) (place : Span) :
    addExpr kind ty place context state =
      .ok (Id.ofIndex state.tree.exprs.size, state.read 0 #[⟨kind, ty, place⟩]) := by
  have added :
      addExpr kind ty place context state =
        .ok (Id.ofIndex state.tree.exprs.size,
          { state with tree := (state.tree.addExpr ⟨kind, ty, place⟩).2 }) :=
    rfl
  rw [added]
  simp [CompileState.read, Tree.withExprs, Tree.addExpr]

/-! ## Leaves -/

/-- A literal is consumed. -/
theorem addLiteral_eq
    (value : LiteralValue)
    (ty : Ty)
    (inside : state.position + 1 < context.tokens.size) :
    addLiteral value ty context state =
      .ok (Id.ofIndex state.tree.exprs.size,
        state.read 1 #[⟨.literal value, ty, (context.token state.position).span⟩]) := by
  have place : span context state = .ok ((context.token state.position).span, state) := rfl
  unfold addLiteral
  rw [bind_eq place, bind_eq (advance_eq inside), addExpr_eq]
  simp

/-- A variable other than the receiver is read, if it is not called. -/
theorem identifier_eq
    {nested : Compile ExprId}
    {slot : LocalSlot}
    {ty : Ty}
    (inside : state.position + 1 < context.tokens.size)
    (notReceiver : (context.token state.position).text ≠ "this")
    (declared : state.scope.lookup? (context.token state.position).text = some (slot, ty))
    (notCalled : (context.token (state.position + 1)).symbol? ≠ some .openPar) :
    identifier nested context state =
      .ok (Id.ofIndex state.tree.exprs.size,
        state.read 1 #[⟨.localVar slot, ty, (context.token state.position).span⟩]) := by
  have name : text context state = .ok ((context.token state.position).text, state) := rfl
  have place : span context state = .ok ((context.token state.position).span, state) := rfl
  have looked : at' .openPar context (state.read 1 #[]) = .ok (false, state.read 1 #[]) := by
    change Except.ok ((context.token (state.position + 1)).symbol? == some .openPar, _) = _
    rw [beq_eq_false_iff_ne.mpr notCalled]
  have scope :
      (get : Compile CompileState) context (state.read 1 #[]) =
        .ok (state.read 1 #[], state.read 1 #[]) :=
    rfl
  unfold identifier
  rw [bind_eq name, bind_eq place, bind_eq (advance_eq inside), bind_eq looked]
  simp only [Bool.false_eq_true, if_false]
  rw [bind_eq scope]
  simp only [beq_eq_false_iff_ne.mpr notReceiver, Bool.false_eq_true, if_false,
    CompileState.read_scope, declared]
  rw [addExpr_eq]
  simp

/-- A leaf is read, if it is not called. -/
theorem primary_leaf
    (nested : Compile ExprId)
    {kind : ExprKind}
    {ty : Ty}
    (inside : state.position + 1 < context.tokens.size)
    (isLeaf : state.scope.leaf? (context.token state.position).lexeme = some (kind, ty))
    (notCalled : (context.token (state.position + 1)).symbol? ≠ some .openPar) :
    ∃ place,
      primary nested context state =
        .ok (Id.ofIndex state.tree.exprs.size, state.read 1 #[⟨kind, ty, place⟩]) := by
  have token : current context state = .ok (context.token state.position, state) := rfl
  refine ⟨(context.token state.position).span, ?_⟩
  unfold primary
  rw [bind_eq token]
  unfold Scope.leaf? Lexeme.literal? at isLeaf
  have kindOf : (context.token state.position).lexeme.kind = (context.token state.position).kind :=
    rfl
  have textOf : (context.token state.position).lexeme.text = (context.token state.position).text :=
    rfl
  cases kindIs : (context.token state.position).kind with
  | identifier =>
      simp only [kindOf, kindIs] at isLeaf ⊢
      by_cases isReceiver : (context.token state.position).lexeme.text = "this"
      · rw [if_pos isReceiver] at isLeaf
        cases isLeaf
      · rw [if_neg isReceiver] at isLeaf
        obtain ⟨⟨slot, ty⟩, declared, isVariable⟩ := Option.map_eq_some_iff.mp isLeaf
        cases isVariable
        exact identifier_eq inside isReceiver declared notCalled
  | number =>
      simp only [kindOf, textOf, kindIs] at isLeaf ⊢
      cases value : Literal.number (context.token state.position).text.toList with
      | error code =>
          rw [value] at isLeaf
          cases isLeaf
      | ok literal =>
          rw [value] at isLeaf
          cases literal <;> cases isLeaf <;> exact addLiteral_eq _ _ inside
  | string =>
      simp only [kindOf, textOf, kindIs] at isLeaf ⊢
      cases value : Literal.string (context.token state.position).text.toList with
      | error code =>
          rw [value] at isLeaf
          cases isLeaf
      | ok literal =>
          rw [value] at isLeaf
          cases isLeaf
          exact addLiteral_eq _ _ inside
  | character =>
      simp only [kindOf, textOf, kindIs] at isLeaf ⊢
      cases value : Literal.character (context.token state.position).text.toList with
      | error code =>
          rw [value] at isLeaf
          cases isLeaf
      | ok literal =>
          rw [value] at isLeaf
          cases isLeaf
          exact addLiteral_eq _ _ inside
  | constant value =>
      simp only [kindOf, kindIs] at isLeaf ⊢
      cases isLeaf
      exact addLiteral_eq _ _ inside
  | symbol symbol =>
      simp only [kindOf, kindIs] at isLeaf ⊢
      cases symbol <;> cases isLeaf <;> exact addLiteral_eq _ _ inside
  | endOfText =>
      simp only [kindOf, kindIs] at isLeaf
      cases isLeaf

/-- What stands in parentheses is read. -/
theorem primary_enclosed
    {nested : Compile ExprId}
    {id : ExprId}
    {length : Nat}
    {added : Array Expr}
    (isOpen : (context.token state.position).lexeme = .ofSymbol .openPar)
    (taken : nested context (state.read 1 #[]) = .ok (id, state.read (1 + length) added))
    (isClosed : (context.token (state.position + 1 + length)).lexeme = .ofSymbol .closePar)
    (inside : state.position + 1 + length + 1 < context.tokens.size) :
    primary nested context state = .ok (id, state.read (length + 2) added) := by
  have token : current context state = .ok (context.token state.position, state) := rfl
  have kindIs : (context.token state.position).kind = .symbol .openPar :=
    congrArg Lexeme.kind isOpen
  rw [Nat.add_assoc state.position] at isClosed inside
  have closed :
      expect .closePar .closePar context (state.read (1 + length) added) =
        .ok ((), state.read (length + 2) added) := by
    rw [expect_there inside (Token.symbol?_of_lexeme isClosed)]
    simp [Nat.add_comm 1]
  unfold primary
  rw [bind_eq token]
  simp only [kindIs]
  rw [bind_eq (advance_eq (by omega)), bind_eq taken, bind_eq closed]
  rfl

/-! ## Passing through levels -/

/-- An expression that no suffix follows is the primary expression. -/
theorem suffixed_eq
    {nested : Compile ExprId}
    {id : ExprId}
    {after : CompileState}
    (taken : primary nested context state = .ok (id, after))
    (stops : context.Stops Formula.leafLevel after.position) :
    suffixed nested context state = .ok (id, after) := by
  have looked : symbol? context after = .ok ((context.token after.position).symbol?, after) := rfl
  have count : tokenCount context after = .ok (context.tokens.size, after) := rfl
  unfold suffixed
  rw [bind_eq taken]
  unfold loop
  rw [bind_eq count]
  unfold loopWithin
  rw [@bind_eq _ _ context after _ _ after (.done id)]
  · rfl
  · rw [bind_eq looked]
    cases isThere : (context.token after.position).symbol? with
    | none => rfl
    | some symbol =>
        have noSuffix := stops.not_suffix isThere
        cases symbol <;> first | rfl | exact absurd (by decide) noSuffix

/-- One turn of joining operands: the operator and the operand behind it, if there are. -/
def joinTurn (operators : List Symbol) (operand : Compile ExprId) (left : ExprId) :
    Compile (Turn ExprId ExprId) := do
  match ← eatAny? operators with
  | none => return .done left
  | some symbol =>
      let symbolSpan ← previousSpan
      let right ← operand
      return .again (← combine symbol symbolSpan left right)

/-- Joining ends where no operator follows. -/
theorem joinTurn_done
    {operators : List Symbol}
    {operand : Compile ExprId}
    {left : ExprId}
    (isMissing : ∀ symbol, (context.token state.position).symbol? = some symbol →
      symbol ∉ operators) :
    joinTurn operators operand left context state = .ok (.done left, state) := by
  have looked : symbol? context state = .ok ((context.token state.position).symbol?, state) := rfl
  have nothing : eatAny? operators context state = .ok (none, state) := by
    unfold eatAny?
    rw [bind_eq looked]
    cases isThere : (context.token state.position).symbol? with
    | none => rfl
    | some symbol =>
        have noOperator : operators.contains symbol = false := by
          simpa using isMissing symbol isThere
        simp only [noOperator, Bool.false_eq_true, if_false]
        rfl
  unfold joinTurn
  rw [bind_eq nothing]
  rfl

/-- Joining goes on with an operator that is there and the operand behind it. -/
theorem joinTurn_again
    {operators : List Symbol}
    {operand : Compile ExprId}
    {left right id : ExprId}
    {symbol : Symbol}
    {between after : CompileState}
    (inside : state.position + 1 < context.tokens.size)
    (isThere : (context.token state.position).symbol? = some symbol)
    (isOperator : symbol ∈ operators)
    (taken : operand context (state.read 1 #[]) = .ok (right, between))
    (combined :
      combine symbol (context.token state.position).span left right context between =
        .ok (id, after)) :
    joinTurn operators operand left context state = .ok (.again id, after) := by
  have looked : symbol? context state = .ok ((context.token state.position).symbol?, state) := rfl
  have eaten : eatAny? operators context state = .ok (some symbol, state.read 1 #[]) := by
    unfold eatAny?
    rw [bind_eq looked, isThere]
    simp only [List.contains_iff_mem.mpr isOperator, if_true]
    rw [bind_eq (advance_eq inside)]
    rfl
  have place :
      previousSpan context (state.read 1 #[]) =
        .ok ((context.token state.position).span, state.read 1 #[]) :=
    rfl
  unfold joinTurn
  rw [bind_eq eaten]
  dsimp only
  rw [bind_eq place, bind_eq taken, bind_eq combined]
  rfl

/-- The tree of a joined formula is made from those of its operands. -/
theorem combine_shows
    (context : CompileContext)
    (state : CompileState)
    (place : Span)
    {scope : Scope}
    {symbol : Symbol}
    {left right : Formula}
    {first second : ExprId}
    {leftType rightType ty : Ty}
    (shownLeft : state.tree.Shows scope left first leftType)
    (shownRight : state.tree.Shows scope right second rightType)
    (fits : Formula.joinedType? symbol leftType rightType = some ty)
    (room : state.tree.exprs.size < UInt32.size) :
    ∃ id node,
      combine symbol place first second context state = .ok (id, state.read 0 #[node]) ∧
        (state.tree.withExprs #[node]).Shows scope (.joined symbol left right) id ty := by
  have spanFirst :
      spanOf first context state = .ok ((state.tree.expr first).span, state) := rfl
  have spanSecond :
      spanOf second context state = .ok ((state.tree.expr second).span, state) := rfl
  unfold combine
  rw [bind_eq spanFirst, bind_eq spanSecond, bind_eq (typeOf_eq shownLeft),
    bind_eq (typeOf_eq shownRight)]
  unfold Formula.joinedType? at fits
  cases logical : logicalOp? symbol with
  | some op =>
      simp only [logical, Option.ite_none_right_eq_some] at fits
      obtain ⟨⟨rfl, rfl⟩, isBoolean⟩ := fits
      cases isBoolean
      simp only [bne_self_eq_false, Bool.or_self, Bool.false_eq_true, if_false]
      rw [addExpr_eq]
      exact ⟨_, _, rfl,
        .logical logical shownLeft.withExprs shownRight.withExprs (.last _ _ _ room)⟩
  | none =>
      simp only [logical] at fits
      obtain ⟨op, isOp, fits⟩ := Option.bind_eq_some_iff.mp fits
      obtain ⟨⟨operand, result⟩, types, rfl⟩ := Option.map_eq_some_iff.mp fits
      rw [isOp]
      dsimp only
      rw [bind_eq (requireAt_eq op), types, bind_eq (requireAt_eq (operand, result)), addExpr_eq]
      exact ⟨_, _, rfl,
        .binary logical isOp shownLeft.withExprs shownRight.withExprs types
          (.last _ _ _ room)⟩

/-- An expression that no question mark follows is no conditional. -/
theorem conditional_eq
    {nested : Compile ExprId}
    {id : ExprId}
    {after : CompileState}
    (taken : binary (prefixed nested) levels context state = .ok (id, after))
    (stops : context.Stops 0 after.position) :
    conditional nested context state = .ok (id, after) := by
  have isMissing : (context.token after.position).symbol? ≠ some .question := by
    intro isThere
    exact absurd (stops.stops _ isThere) (by decide)
  unfold conditional
  rw [bind_eq taken, bind_eq (eat_missing isMissing)]
  rfl

/-- A conditional is made from its condition and its branches. -/
theorem conditional_chosen
    {nested : Compile ExprId}
    {first second third : ExprId}
    {behindCondition asked behindTrue separated after : CompileState}
    {ty : Ty}
    (takenCondition :
      binary (prefixed nested) levels context state = .ok (first, behindCondition))
    (isBoolean : (behindCondition.tree.expr first).ty = .boolean)
    (asks : eat .question context behindCondition = .ok (true, asked))
    (same : asked.tree = behindCondition.tree)
    (takenTrue : nested context asked = .ok (second, behindTrue))
    (separates : expect .colon .noColon context behindTrue = .ok ((), separated))
    (takenFalse : nested context separated = .ok (third, after))
    (fits :
      after.tree.commonType? (after.tree.expr second).ty (after.tree.expr third).ty = some ty) :
    ∃ place,
      conditional nested context state =
        .ok (Id.ofIndex after.tree.exprs.size,
          after.read 0 #[⟨.conditional first second third, ty, place⟩]) := by
  have typed (id : ExprId) (state : CompileState) :
      typeOf id context state = .ok ((state.tree.expr id).ty, state) :=
    rfl
  have placed (id : ExprId) (state : CompileState) :
      spanOf id context state = .ok ((state.tree.expr id).span, state) :=
    rfl
  have built : tree context after = .ok (after.tree, after) := rfl
  refine ⟨(after.tree.expr first).span.merge (after.tree.expr third).span, ?_⟩
  unfold conditional
  rw [bind_eq takenCondition, bind_eq asks]
  simp only [Bool.not_true, Bool.false_eq_true, if_false]
  rw [bind_eq (typed _ _), same, isBoolean]
  simp only [bne_self_eq_false, Bool.false_eq_true, if_false]
  rw [bind_eq takenTrue, bind_eq separates, bind_eq takenFalse, bind_eq (placed _ _),
    bind_eq built, bind_eq (typed _ _), bind_eq (typed _ _), fits, bind_eq (requireAt_eq ty),
    bind_eq (placed _ _), bind_eq (placed _ _), addExpr_eq]

/-- An expression that no assignment symbol follows is no assignment. -/
theorem assignment_eq
    {nested : Compile ExprId}
    {id : ExprId}
    {after : CompileState}
    (taken : conditional nested context state = .ok (id, after))
    (stops : context.Stops 0 after.position) :
    assignment nested context state = .ok (id, after) := by
  have looked : symbol? context after = .ok ((context.token after.position).symbol?, after) := rfl
  have isMissing : (context.token after.position).symbol?.filter Symbol.isAssignment = none := by
    refine Option.filter_eq_none_iff.mpr fun symbol isThere => ?_
    have := stops.stops symbol isThere
    simp only [goesOn, beq_self_eq_true, Bool.true_and, Bool.or_eq_false_iff] at this
    simpa using this.2.2
  unfold assignment
  rw [bind_eq taken, bind_eq looked, isMissing]
  rfl

end Compile

end BotScript
