import BotScript.Host.Standard
import BotScript.Proofs.ReadingSteps

namespace BotScript

/-!
# Reading formulas by precedence

The compiler reads a written formula back: from the lexemes of a formula whose
operators fit their operands it makes the tree of that formula and stops behind
the last one.  The proof is by induction on the formula.  At its own level a
formula is read from its parts; it is passed through the looser levels, which
find no operator behind it, and it is read at tighter ones in parentheses.
-/

namespace Compile

/-- An expression of the binary operators from a level on. -/
def levelWithin (bound index : Nat) : Compile ExprId :=
  binary (prefixed (expressionWithin bound)) (levels.drop index)

/-- A level joins operands of the next one. -/
theorem levelWithin_eq
    {index : Nat}
    (bound : Nat)
    (inside : index < levels.length) :
    levelWithin bound index =
      levelWithin bound (index + 1) >>=
        loop (joinTurn levels[index] (levelWithin bound (index + 1))) := by
  unfold levelWithin
  rw [List.drop_eq_getElem_cons inside]
  rfl

/-- A step reads a formula of a type from a number of tokens. -/
def Reads
    (step : Compile ExprId) (context : CompileContext) (state : CompileState)
    (formula : Formula) (length : Nat) (ty : Ty) : Prop :=
  ∃ id added,
    step context state = .ok (id, state.read length added) ∧
      added.size = formula.size ∧
        (state.tree.withExprs added).Shows state.scope formula id ty

end Compile

/-- A formula of a type is written at the current token, and there are numbers for its nodes. -/
structure CompileContext.Writes
    (context : CompileContext) (state : CompileState) (formula : Formula) (asked : Nat) (ty : Ty) :
    Prop where
  typed : formula.type? state.tree state.scope = some ty
  spelled : context.Spells state.position (formula.lexemesAt asked)
  room : state.tree.exprs.size + formula.size ≤ UInt32.size

namespace Formula

open Compile

/-- A formula is written open where its level fits. -/
theorem lexemesAt_of_le
    {formula : Formula}
    {asked : Nat}
    (fits : asked ≤ formula.level) :
    formula.lexemesAt asked = formula.lexemes :=
  if_neg (Nat.not_lt.mpr fits)

/-- A formula is written in parentheses where a tighter one is asked for. -/
theorem lexemesAt_of_lt
    {formula : Formula}
    {asked : Nat}
    (tighter : formula.level < asked) :
    formula.lexemesAt asked =
      .ofSymbol .openPar :: (formula.lexemes ++ [.ofSymbol .closePar]) :=
  if_pos tighter

/-- A formula is written alike at neighbouring levels other than its own. -/
theorem lexemesAt_succ
    {formula : Formula}
    {asked : Nat}
    (other : formula.level ≠ asked) :
    formula.lexemesAt (asked + 1) = formula.lexemesAt asked := by
  unfold lexemesAt enclosed
  have same : formula.level < asked + 1 ↔ formula.level < asked := by omega
  simp only [same]

/-- At least one lexeme is written. -/
theorem lexemes_pos (formula : Formula) : 0 < formula.lexemes.length := by
  cases formula <;> simp [lexemes] <;> omega

/-- At least one lexeme is written at every level. -/
theorem lexemesAt_pos (formula : Formula) (asked : Nat) :
    0 < (formula.lexemesAt asked).length := by
  unfold lexemesAt enclosed
  split
  · simp
  · exact formula.lexemes_pos

/-- A formula is read by a step wherever it is written at a level. -/
def ReadBy (formula : Formula) (asked : Nat) (step : Nat → Compile ExprId) : Prop :=
  ∀ ⦃context : CompileContext⦄ ⦃state : CompileState⦄ ⦃ty : Ty⦄ ⦃bound : Nat⦄,
    context.Writes state formula asked ty →
      context.Stops asked (state.position + (formula.lexemesAt asked).length) →
        (formula.lexemesAt asked).length ≤ bound →
          (step bound).Reads context state formula (formula.lexemesAt asked).length ty

/-- A formula is read with its prefix operators, of which there are no more than lexemes. -/
def ReadPrefixed (formula : Formula) : Prop :=
  ∀ more, formula.ReadBy prefixLevel fun bound =>
    prefixedWithin (expressionWithin bound) ((formula.lexemesAt prefixLevel).length + more)

/--
A formula is read as the beginning of a row of operands of one level: after as
many turns as it has operators of the level, the row goes on from its tree.
-/
def ReadJoined (formula : Formula) (index : Nat) (inside : index < levels.length) : Prop :=
  ∀ ⦃context : CompileContext⦄ ⦃state : CompileState⦄ ⦃ty : Ty⦄ ⦃bound : Nat⦄,
    context.Writes state formula (index + 1) ty →
      context.Stops (index + 2) (state.position + (formula.lexemesAt (index + 1)).length) →
        (formula.lexemesAt (index + 1)).length ≤ bound →
          ∃ id added turns,
            turns < (formula.lexemesAt (index + 1)).length ∧
              (∀ more,
                (levelWithin bound (index + 1) >>=
                    loopWithin (joinTurn levels[index] (levelWithin bound (index + 1)))
                      (turns + more)) context state =
                  loopWithin (joinTurn levels[index] (levelWithin bound (index + 1))) more id
                    context (state.read (formula.lexemesAt (index + 1)).length added)) ∧
                added.size = formula.size ∧
                  (state.tree.withExprs added).Shows state.scope formula id ty

/-- A formula is read at every level. -/
structure Readable (formula : Formula) : Prop where
  whole : formula.ReadBy 0 fun bound => expressionWithin (bound + 1)
  joined : ∀ index (inside : index < levels.length), formula.ReadJoined index inside
  prefixed : formula.ReadPrefixed

variable {formula : Formula}

/-- A row of operands ends with a formula that no operator of the level follows. -/
theorem ReadJoined.level
    {index : Nat}
    {inside : index < levels.length}
    (joined : formula.ReadJoined index inside) :
    formula.ReadBy (index + 1) (levelWithin · index) := by
  intro context state ty bound writes stops within
  obtain ⟨id, added, turns, few, chain, size, shown⟩ :=
    joined writes (stops.mono (Nat.le_succ _)) within
  refine ⟨id, added, ?_, size, shown⟩
  have enough : turns < context.tokens.size := by
    have := stops.inside
    omega
  have looped :
      (levelWithin bound index) context state =
        (levelWithin bound (index + 1) >>=
          loopWithin (joinTurn levels[index] (levelWithin bound (index + 1)))
            (turns + (context.tokens.size - turns + 1))) context state := by
    rw [levelWithin_eq bound inside,
      show turns + (context.tokens.size - turns + 1) = context.tokens.size + 1 by omega]
    rfl
  have ends :
      joinTurn levels[index] (levelWithin bound (index + 1)) id context
          (state.read (formula.lexemesAt (index + 1)).length added) =
        .ok (.done id, state.read (formula.lexemesAt (index + 1)).length added) :=
    joinTurn_done fun symbol isThere => stops.not_operator inside isThere
  dsimp only
  rw [looped, chain, loopWithin, bind_eq ends]
  rfl

/-- A formula of another level passes through a level as its only operand. -/
theorem ReadBy.joined
    {index : Nat}
    {inside : index < levels.length}
    (other : formula.level ≠ index + 1)
    (read : formula.ReadBy (index + 2) (levelWithin · (index + 1))) :
    formula.ReadJoined index inside := by
  intro context state ty bound writes stops within
  have same := lexemesAt_succ other
  obtain ⟨id, added, taken, size, shown⟩ :=
    read ⟨writes.typed, same ▸ writes.spelled, writes.room⟩ (same ▸ stops) (same ▸ within)
  refine ⟨id, added, 0, formula.lexemesAt_pos _, fun more => ?_, size, shown⟩
  rw [bind_eq taken, Nat.zero_add, same]

/-- A formula is read behind what has been read already. -/
theorem ReadBy.behind
    {asked : Nat}
    {step : Nat → Compile ExprId}
    {context : CompileContext}
    {state : CompileState}
    {ty : Ty}
    (read : formula.ReadBy asked step)
    (bound done : Nat)
    (added : Array Expr)
    (typed : formula.type? state.tree state.scope = some ty)
    (spelled : context.Spells (state.position + done) (formula.lexemesAt asked))
    (room : state.tree.exprs.size + added.size + formula.size ≤ UInt32.size)
    (stops : context.Stops asked (state.position + done + (formula.lexemesAt asked).length))
    (within : (formula.lexemesAt asked).length ≤ bound) :
    ∃ id more,
      step bound context (state.read done added) =
          .ok (id, state.read (done + (formula.lexemesAt asked).length) (added ++ more)) ∧
        more.size = formula.size ∧
          (state.tree.withExprs (added ++ more)).Shows state.scope formula id ty := by
  have writes : context.Writes (state.read done added) formula asked ty :=
    ⟨(type?_withExprs formula).trans typed, spelled, by simpa using room⟩
  obtain ⟨id, more, taken, size, shown⟩ := read writes stops within
  refine ⟨id, more, ?_, size, ?_⟩
  · rw [taken, CompileState.read_read]
  · simpa using shown

/-- A formula passes through all the levels between one that reads it and its own. -/
theorem ReadBy.descends
    {top : Nat}
    (isLevel : top ≤ levels.length)
    (read : formula.ReadBy (top + 1) (levelWithin · top)) :
    ∀ (steps index : Nat) (inside : index < levels.length), index + steps + 1 = top →
      (∀ level, index < level → level ≤ top → formula.level ≠ level) →
        formula.ReadJoined index inside := by
  intro steps
  induction steps with
  | zero =>
      intro index inside reached other
      subst reached
      exact read.joined (other _ (Nat.lt_succ_self _) (Nat.le_refl _))
  | succ steps passed =>
      intro index inside reached other
      have next : formula.ReadJoined (index + 1) (by omega) :=
        passed _ _ (by omega) fun level above => other level (Nat.lt_of_succ_lt above)
      exact next.level.joined (other _ (Nat.lt_succ_self _) (by omega))

/-- A formula with prefix operators is the only operand of the tightest level. -/
theorem ReadPrefixed.level
    (prefixed : formula.ReadPrefixed) :
    formula.ReadBy prefixLevel (levelWithin · levels.length) := by
  intro context state ty bound writes stops within
  have few : (formula.lexemesAt prefixLevel).length ≤ context.tokens.size := by
    have := stops.inside
    omega
  obtain ⟨id, added, taken, size, shown⟩ :=
    prefixed (context.tokens.size + 1 - (formula.lexemesAt prefixLevel).length) writes stops within
  refine ⟨id, added, ?_, size, shown⟩
  rw [Nat.add_sub_cancel' (Nat.le_succ_of_le few)] at taken
  exact taken

/-- A formula that is no conditional is a whole expression. -/
theorem ReadBy.whole
    (notChosen : formula.level ≠ 0)
    (read : formula.ReadBy 1 (levelWithin · 0)) :
    formula.ReadBy 0 fun bound => expressionWithin (bound + 1) := by
  intro context state ty bound writes stops within
  have same := lexemesAt_succ notChosen
  obtain ⟨id, added, taken, size, shown⟩ :=
    read ⟨writes.typed, same ▸ writes.spelled, writes.room⟩
      ((same ▸ stops).mono (Nat.zero_le _)) (same ▸ within)
  rw [same] at taken
  exact ⟨id, added, assignment_eq (conditional_eq taken stops) stops, size, shown⟩

/-- What is written at the tightest level does not begin with a prefix operator. -/
theorem no_prefix
    {context : CompileContext}
    {state : CompileState}
    {ty : Ty}
    {symbol : Symbol}
    (writes : context.Writes state formula leafLevel ty)
    (isThere : (context.token state.position).symbol? = some symbol) :
    unaryOp? symbol = none ∧ (symbol == .increment || symbol == .decrement) = false := by
  by_cases tight : formula.level < leafLevel
  · have spelled := writes.spelled
    rw [lexemesAt_of_lt tight] at spelled
    rw [Token.symbol?_of_lexeme spelled.cons.1.2] at isThere
    cases isThere
    decide
  · cases formula with
    | leaf lexeme =>
        have spelled := writes.spelled
        rw [lexemesAt_of_le (Nat.not_lt.mp tight)] at spelled
        obtain ⟨⟨kind, ty⟩, isLeaf, -⟩ := Option.map_eq_some_iff.mp writes.typed
        rw [← spelled.cons.1.2] at isLeaf
        have kindIs : (context.token state.position).lexeme.kind = .symbol symbol := by
          unfold Token.symbol? at isThere
          split at isThere
          · next kindIs =>
              cases isThere
              exact kindIs
          · cases isThere
        unfold Scope.leaf? Lexeme.literal? at isLeaf
        simp only [kindIs] at isLeaf
        cases symbol <;> first | (cases isLeaf; done) | decide
    | prefixed symbol operand => exact absurd (Nat.lt_succ_self _) tight
    | joined symbol left right =>
        refine absurd ?_ tight
        have isLevel : List.findIdx (List.contains · symbol) levels ≤ levels.length :=
          List.findIdx_le_length
        change List.findIdx (List.contains · symbol) levels + 1 < levels.length + 1 + 1
        omega
    | chosen condition whenTrue whenFalse => exact absurd (Nat.succ_pos _) tight

/-- A formula without prefix operators passes through their level. -/
theorem ReadBy.prefixed
    (other : formula.level ≠ prefixLevel)
    (read : formula.ReadBy leafLevel fun bound => suffixed (expressionWithin bound)) :
    formula.ReadPrefixed := by
  intro more context state ty bound writes stops within
  have same : formula.lexemesAt leafLevel = formula.lexemesAt prefixLevel := lexemesAt_succ other
  have tight : context.Writes state formula leafLevel ty :=
    ⟨writes.typed, same ▸ writes.spelled, writes.room⟩
  obtain ⟨id, added, taken, size, shown⟩ :=
    read tight ((same ▸ stops).mono (Nat.le_succ _)) (same ▸ within)
  refine ⟨id, added, ?_, size, shown⟩
  rw [same] at taken
  obtain ⟨count, isCount⟩ :=
    Nat.exists_eq_succ_of_ne_zero (Nat.ne_of_gt (formula.lexemesAt_pos prefixLevel))
  have start : span context state = .ok ((context.token state.position).span, state) := rfl
  have looked : symbol? context state = .ok ((context.token state.position).symbol?, state) := rfl
  dsimp only
  rw [show (formula.lexemesAt prefixLevel).length + more = count + more + 1 by omega,
    prefixedWithin, bind_eq start, bind_eq looked]
  cases isThere : (context.token state.position).symbol? with
  | none => exact taken
  | some symbol =>
      obtain ⟨noPrefix, noStep⟩ := no_prefix tight isThere
      simp only [noPrefix, noStep, Bool.false_eq_true, if_false]
      exact taken

/-- A formula is read in parentheses where a tighter one is asked for. -/
theorem ReadBy.enclosed
    (loose : formula.level < leafLevel)
    (read : formula.ReadBy 0 fun bound => expressionWithin (bound + 1)) :
    formula.ReadBy leafLevel fun bound => suffixed (expressionWithin bound) := by
  intro context state ty bound writes stops within
  have inner : formula.lexemesAt 0 = formula.lexemes := lexemesAt_of_le (Nat.zero_le _)
  have spelled := writes.spelled
  rw [lexemesAt_of_lt loose] at spelled stops within ⊢
  simp only [List.length_cons, List.length_append, List.length_nil] at stops within ⊢
  obtain ⟨⟨-, isOpen⟩, behind⟩ := spelled.cons
  obtain ⟨spelled, behind⟩ := behind.append
  obtain ⟨⟨-, isClosed⟩, -⟩ := behind.cons
  obtain ⟨nested, rfl⟩ : ∃ nested, bound = nested + 1 := ⟨bound - 1, by omega⟩
  have inside := stops.inside
  have ends : context.Stops 0 (state.position + 1 + formula.lexemes.length) :=
    .ofSymbol (by omega) isClosed (by decide)
  obtain ⟨id, added, taken, size, shown⟩ :=
    read.behind nested 1 #[] writes.typed (inner ▸ spelled)
      (by simpa using writes.room) (inner ▸ ends) (by rw [inner]; omega)
  rw [inner, Array.empty_append] at taken
  rw [Array.empty_append] at shown
  exact ⟨id, added, suffixed_eq (primary_enclosed isOpen taken isClosed (by omega)) stops, size,
    shown⟩

/-! ## Formulas from their parts -/

/-- A leaf is read. -/
theorem leaf_read (lexeme : Lexeme) :
    (leaf lexeme).ReadBy leafLevel fun bound => suffixed (expressionWithin bound) := by
  intro context state ty bound writes stops within
  obtain ⟨⟨-, isLexeme⟩, -⟩ := writes.spelled.cons
  obtain ⟨⟨kind, ty⟩, isLeaf, rfl⟩ := Option.map_eq_some_iff.mp writes.typed
  have notCalled : (context.token (state.position + 1)).symbol? ≠ some .openPar := by
    intro isThere
    exact stops.not_suffix isThere (by decide)
  rw [← isLexeme] at isLeaf
  obtain ⟨place, taken⟩ :=
    primary_leaf (expressionWithin bound) stops.inside isLeaf notCalled
  exact ⟨_, _, suffixed_eq taken stops, rfl,
    .leaf (isLexeme ▸ isLeaf) (.last _ _ _ (Nat.lt_of_succ_le writes.room))⟩

/-- A prefix operator is read with its operand. -/
theorem ReadPrefixed.prefixed
    {symbol : Symbol}
    {operand : Formula}
    (read : operand.ReadPrefixed) :
    (Formula.prefixed symbol operand).ReadPrefixed := by
  intro more context state ty bound writes stops within
  have spelled := writes.spelled
  have room := writes.room
  have lexemes :
      (Formula.prefixed symbol operand).lexemesAt prefixLevel =
        .ofSymbol symbol :: operand.lexemesAt prefixLevel :=
    lexemesAt_of_le (Nat.le_refl _)
  rw [lexemes] at spelled stops within ⊢
  simp only [List.length_cons] at stops within ⊢
  simp only [Formula.size] at room
  obtain ⟨⟨-, isSymbol⟩, spelled⟩ := spelled.cons
  obtain ⟨op, isOp, typed⟩ := Option.bind_eq_some_iff.mp writes.typed
  obtain ⟨partType, typedOperand, fits⟩ := Option.bind_eq_some_iff.mp typed
  have inside := stops.inside
  have ends :
      context.Stops prefixLevel
        (state.position + 1 + (operand.lexemesAt prefixLevel).length) := by
    rwa [Nat.add_assoc, Nat.add_comm 1]
  obtain ⟨part, added, taken, size, shown⟩ :=
    (read more).behind _ 1 #[] typedOperand spelled (by simp; omega) ends
      (Nat.le_of_succ_le within)
  rw [Array.empty_append] at taken shown
  have start : span context state = .ok ((context.token state.position).span, state) := rfl
  have looked : symbol? context state = .ok (some symbol, state) := by
    rw [← Token.symbol?_of_lexeme isSymbol]
    rfl
  have place :
      spanOf part context (state.read ((operand.lexemesAt prefixLevel).length + 1) added) =
        .ok (((state.tree.withExprs added).expr part).span,
          state.read ((operand.lexemesAt prefixLevel).length + 1) added) :=
    rfl
  rw [Nat.add_comm 1] at taken
  obtain ⟨whole, isWhole⟩ :=
    spanFrom_eq context (state.read ((operand.lexemesAt prefixLevel).length + 1) added)
      (context.token state.position).span
  refine ⟨Id.ofIndex (state.tree.withExprs added).exprs.size,
    added ++ #[⟨.unary op part, ty, whole⟩], ?_, by simp [size, Formula.size], ?_⟩
  · rw [Nat.add_right_comm, prefixedWithin, bind_eq start, bind_eq looked]
    simp only [isOp]
    rw [bind_eq (advance_eq (by omega)), bind_eq taken, bind_eq place, bind_eq (typeOf_eq shown),
      fits, bind_eq (requireAt_eq ty), bind_eq isWhole, addExpr_eq]
    simp
  · rw [← Tree.withExprs_withExprs]
    exact .prefixed isOp shown.withExprs fits (.last _ _ _ (by simp; omega))

/-- A row of operands goes on with an operator of its level and an operand of the next one. -/
theorem ReadJoined.joined
    {symbol : Symbol}
    {left right : Formula}
    {index : Nat}
    {inside : index < levels.length}
    (own : levelOf symbol = index + 1)
    (readLeft : left.ReadJoined index inside)
    (readRight : right.ReadBy (index + 2) (levelWithin · (index + 1))) :
    (Formula.joined symbol left right).ReadJoined index inside := by
  intro context state ty bound writes stops within
  have spelled := writes.spelled
  have room := writes.room
  have lexemes :
      (Formula.joined symbol left right).lexemesAt (index + 1) =
        left.lexemesAt (index + 1) ++ .ofSymbol symbol :: right.lexemesAt (index + 2) := by
    rw [lexemesAt_of_le (Nat.le_of_eq own.symm), Formula.lexemes, own]
    rfl
  rw [lexemes] at spelled stops within ⊢
  simp only [List.length_append, List.length_cons] at stops within ⊢
  simp only [Formula.size] at room
  obtain ⟨spelledLeft, spelled⟩ := spelled.append
  obtain ⟨⟨isInside, isSymbol⟩, spelledRight⟩ := spelled.cons
  obtain ⟨leftType, typedLeft, typed⟩ := Option.bind_eq_some_iff.mp writes.typed
  obtain ⟨rightType, typedRight, fits⟩ := Option.bind_eq_some_iff.mp typed
  have isOperator : symbol ∈ levels[index] := mem_of_levelOf inside own
  have ends : goesOn (index + 2) symbol = false := by
    have noSuffix : symbol ∉ suffixes := by
      intro isSuffix
      have := levelOf_of_suffix symbol isSuffix
      rw [own] at this
      exact absurd (Nat.succ.inj this) (Nat.ne_of_lt inside)
    simp [goesOn, own, noSuffix]
  have fewLeft : (left.lexemesAt (index + 1)).length ≤ bound := by omega
  obtain ⟨first, added, turns, few, chain, size, shownLeft⟩ :=
    readLeft ⟨typedLeft, spelledLeft, by omega⟩ (.ofSymbol isInside isSymbol ends) fewLeft
  have behind := stops.inside
  obtain ⟨second, others, taken, sizeRight, shownRight⟩ :=
    readRight.behind bound ((left.lexemesAt (index + 1)).length + 1) added typedRight spelledRight
      (by omega) ((congrArg (context.Stops (index + 2)) (by omega)).mp stops) (by omega)
  have shownFirst :
      (state.tree.withExprs (added ++ others)).Shows state.scope left first leftType := by
    rw [← Tree.withExprs_withExprs]
    exact shownLeft.withExprs
  obtain ⟨id, node, combined, shown⟩ :=
    combine_shows context
      (state.read
        ((left.lexemesAt (index + 1)).length + 1 + (right.lexemesAt (index + 2)).length)
        (added ++ others))
      (context.token (state.position + (left.lexemesAt (index + 1)).length)).span
      shownFirst shownRight fits (by simp; omega)
  refine ⟨id, added ++ others ++ #[node], turns + 1, by omega, fun more => ?_, ?_, ?_⟩
  · have again :
        joinTurn levels[index] (levelWithin bound (index + 1)) first context
            (state.read (left.lexemesAt (index + 1)).length added) =
          .ok (.again id,
            state.read
              ((left.lexemesAt (index + 1)).length + ((right.lexemesAt (index + 2)).length + 1))
              (added ++ others ++ #[node])) := by
      refine joinTurn_again (by simpa using by omega) (Token.symbol?_of_lexeme isSymbol)
        isOperator (by simpa using taken) ?_
      simpa [Nat.add_assoc, Nat.add_comm 1] using combined
    rw [show turns + 1 + more = turns + (more + 1) by omega, chain, loopWithin, bind_eq again]
  · simp [size, sizeRight, Formula.size, Nat.add_assoc]
  · rw [← Tree.withExprs_withExprs]
    exact shown

/-- A conditional is read from its condition and its branches. -/
theorem ReadBy.chosen
    {condition whenTrue whenFalse : Formula}
    (readCondition : condition.ReadBy 1 (levelWithin · 0))
    (readTrue : whenTrue.ReadBy 0 fun bound => expressionWithin (bound + 1))
    (readFalse : whenFalse.ReadBy 0 fun bound => expressionWithin (bound + 1)) :
    (Formula.chosen condition whenTrue whenFalse).ReadBy 0
      fun bound => expressionWithin (bound + 1) := by
  intro context state ty bound writes stops within
  have spelled := writes.spelled
  have room := writes.room
  have inner (formula : Formula) : formula.lexemesAt 0 = formula.lexemes :=
    lexemesAt_of_le (Nat.zero_le _)
  have lexemes :
      (Formula.chosen condition whenTrue whenFalse).lexemesAt 0 =
        condition.lexemesAt 1 ++ .ofSymbol .question ::
          (whenTrue.lexemesAt 0 ++ .ofSymbol .colon :: whenFalse.lexemesAt 0) := by
    rw [inner, inner, inner]
    rfl
  rw [lexemes] at spelled stops within ⊢
  simp only [List.length_append, List.length_cons] at stops within ⊢
  simp only [Formula.size] at room
  obtain ⟨nested, rfl⟩ : ∃ nested, bound = nested + 1 := ⟨bound - 1, by omega⟩
  obtain ⟨spelledCondition, spelled⟩ := spelled.append
  obtain ⟨⟨insideQuestion, isQuestion⟩, spelled⟩ := spelled.cons
  obtain ⟨spelledTrue, spelled⟩ := spelled.append
  obtain ⟨⟨insideColon, isColon⟩, spelledFalse⟩ := spelled.cons
  have typed := writes.typed
  simp only [type?, Option.ite_none_right_eq_some] at typed
  obtain ⟨typedCondition, typed⟩ := typed
  obtain ⟨trueType, typedTrue, typed⟩ := Option.bind_eq_some_iff.mp typed
  obtain ⟨falseType, typedFalse, fits⟩ := Option.bind_eq_some_iff.mp typed
  have inside := stops.inside
  have fewCondition : (condition.lexemesAt 1).length ≤ nested + 1 := by omega
  obtain ⟨first, conditions, takenCondition, sizeCondition, shownCondition⟩ :=
    readCondition ⟨typedCondition, spelledCondition, by omega⟩
      (.ofSymbol insideQuestion isQuestion (by decide)) fewCondition
  obtain ⟨second, trues, takenTrue, sizeTrue, shownTrue⟩ :=
    readTrue.behind nested ((condition.lexemesAt 1).length + 1) conditions typedTrue spelledTrue
      (by omega) (.ofSymbol insideColon isColon (by decide)) (by omega)
  obtain ⟨third, falses, takenFalse, sizeFalse, shownFalse⟩ :=
    readFalse.behind nested
      ((condition.lexemesAt 1).length + 1 + (whenTrue.lexemesAt 0).length + 1)
      (conditions ++ trues) typedFalse (by simpa [Nat.add_assoc] using spelledFalse) (by simp; omega)
      ((congrArg (context.Stops 0) (by omega)).mp stops) (by omega)
  have asked :
      eat .question context (state.read (condition.lexemesAt 1).length conditions) =
        .ok (true, state.read ((condition.lexemesAt 1).length + 1) conditions) := by
    rw [eat_there (by simpa using by omega) (Token.symbol?_of_lexeme isQuestion)]
    simp
  have separated :
      expect .colon .noColon context
          (state.read ((condition.lexemesAt 1).length + 1 + (whenTrue.lexemesAt 0).length)
            (conditions ++ trues)) =
        .ok ((),
          state.read ((condition.lexemesAt 1).length + 1 + (whenTrue.lexemesAt 0).length + 1)
            (conditions ++ trues)) := by
    rw [expect_there (by simpa using by omega)
      (by simpa [Nat.add_assoc] using Token.symbol?_of_lexeme isColon)]
    simp
  have shownFirst : (state.tree.withExprs (conditions ++ trues ++ falses)).Shows
      state.scope condition first .boolean := by
    rw [Array.append_assoc, ← Tree.withExprs_withExprs]
    exact shownCondition.withExprs
  have shownSecond : (state.tree.withExprs (conditions ++ trues ++ falses)).Shows
      state.scope whenTrue second trueType := by
    rw [← Tree.withExprs_withExprs]
    exact shownTrue.withExprs
  have common :
      (state.tree.withExprs (conditions ++ trues ++ falses)).commonType?
          ((state.tree.withExprs (conditions ++ trues ++ falses)).expr second).ty
          ((state.tree.withExprs (conditions ++ trues ++ falses)).expr third).ty =
        some ty := by
    rw [shownSecond.node_ty, shownFalse.node_ty, Tree.withExprs_commonType]
    exact fits
  obtain ⟨place, taken⟩ :=
    conditional_chosen takenCondition shownCondition.node_ty asked rfl takenTrue separated
      takenFalse common
  rw [CompileState.read_read, Nat.add_zero] at taken
  refine ⟨Id.ofIndex (state.tree.withExprs (conditions ++ trues ++ falses)).exprs.size,
    conditions ++ trues ++ falses ++ #[⟨.conditional first second third, ty, place⟩],
    assignment_eq (taken.trans ?_) stops, ?_, ?_⟩
  · rw [CompileState.read_tree]
    refine congrArg Except.ok (congrArg (Prod.mk _) (congrArg (state.read · _) ?_))
    omega
  · simp [sizeCondition, sizeTrue, sizeFalse, Formula.size, Nat.add_assoc]
  · rw [← Tree.withExprs_withExprs]
    exact .chosen shownFirst.withExprs shownSecond.withExprs shownFalse.withExprs
      (by simpa using fits) (.last _ _ _ (by simp; omega))

/-! ## All formulas -/

/-- Only binary and logical operators join formulas that fit. -/
theorem levelOf_lt_of_joinedType
    {symbol : Symbol}
    {left right ty : Ty}
    (fits : joinedType? symbol left right = some ty) :
    levelOf symbol < prefixLevel := by
  have isOperator :
      (logicalOp? symbol).isSome ∨ (binaryOp? symbol).isSome → levelOf symbol < prefixLevel := by
    cases symbol <;> decide
  refine isOperator ?_
  unfold joinedType? at fits
  cases logical : logicalOp? symbol with
  | some op => exact .inl rfl
  | none =>
      rw [logical] at fits
      obtain ⟨op, isOp, -⟩ := Option.bind_eq_some_iff.mp fits
      exact .inr (Option.isSome_of_eq_some isOp)

/-- A formula that is read with its prefix operators is read at the levels below its own. -/
theorem ReadPrefixed.below
    (prefixed : formula.ReadPrefixed)
    {index : Nat}
    (inside : index < levels.length)
    (other : ∀ level, index < level → level ≤ levels.length → formula.level ≠ level) :
    formula.ReadJoined index inside :=
  prefixed.level.descends (Nat.le_refl _) (levels.length - index - 1) index inside (by omega) other

/-- A formula of prefix operators or without operators is read at every level. -/
theorem ReadPrefixed.readable
    (prefixed : formula.ReadPrefixed)
    (tight : prefixLevel ≤ formula.level) :
    formula.Readable := by
  have joined (index : Nat) (inside : index < levels.length) : formula.ReadJoined index inside :=
    prefixed.below inside fun level _ isLevel =>
      Nat.ne_of_gt (Nat.lt_of_lt_of_le (Nat.lt_succ_of_le isLevel) tight)
  have notChosen : formula.level ≠ 0 := Nat.ne_of_gt (Nat.lt_of_lt_of_le (by decide) tight)
  exact ⟨(joined 0 (by decide)).level.whole notChosen, joined, prefixed⟩

/-- A formula of a level of binary operators is read at every level. -/
theorem ReadJoined.readable
    {index : Nat}
    {inside : index < levels.length}
    (own : formula.level = index + 1)
    (read : formula.ReadJoined index inside) :
    formula.Readable := by
  have looser (other : Nat) (isInside : other < levels.length) (le : other ≤ index) :
      formula.ReadJoined other isInside := by
    obtain rfl | below := Nat.eq_or_lt_of_le le
    · exact read
    · exact read.level.descends (Nat.le_of_lt inside) (index - other - 1) other isInside
        (by omega) fun level _ isLevel => by omega
  have whole := (looser 0 (by decide) (Nat.zero_le _)).level.whole (by omega)
  have prefixed : formula.ReadPrefixed := by
    refine (whole.enclosed ?_).prefixed ?_ <;> rw [own]
    · exact Nat.succ_lt_succ (Nat.lt_succ_of_lt inside)
    · exact Nat.ne_of_lt (Nat.succ_lt_succ inside)
  refine ⟨whole, fun other isInside => ?_, prefixed⟩
  obtain le | above := Nat.lt_or_ge index other |>.symm
  · exact looser other isInside le
  · exact prefixed.below isInside fun level isAbove _ => by omega

/-- A readable formula is read at every level of binary operators and behind them. -/
theorem Readable.level
    (readable : formula.Readable)
    {index : Nat}
    (isLevel : index ≤ levels.length) :
    formula.ReadBy (index + 1) (levelWithin · index) := by
  obtain inside | rfl := Nat.lt_or_eq_of_le isLevel
  · exact (readable.joined index inside).level
  · exact readable.prefixed.level

/-- Every formula is read at every level. -/
theorem readable (formula : Formula) : formula.Readable := by
  induction formula with
  | leaf lexeme =>
      have isLeaf : (leaf lexeme).level = prefixLevel + 1 := rfl
      exact ((leaf_read lexeme).prefixed (by omega)).readable (by omega)
  | prefixed symbol operand readOperand =>
      exact readOperand.prefixed.prefixed.readable (Nat.le_refl _)
  | chosen condition whenTrue whenFalse readCondition readTrue readFalse =>
      have isLoosest : (Formula.chosen condition whenTrue whenFalse).level = 0 := rfl
      have whole :=
        ReadBy.chosen (readCondition.level (Nat.zero_le _)) readTrue.whole readFalse.whole
      have prefixed : (Formula.chosen condition whenTrue whenFalse).ReadPrefixed :=
        (whole.enclosed (by rw [isLoosest]; decide)).prefixed (by rw [isLoosest]; decide)
      exact ⟨whole,
        fun index inside => prefixed.below inside fun level above _ =>
          Nat.ne_of_lt (Nat.zero_lt_of_lt above),
        prefixed⟩
  | joined symbol left right readLeft readRight =>
      by_cases isOperator : levelOf symbol < prefixLevel
      · have own : levelOf symbol = levelOf symbol - 1 + 1 := rfl
        have inside : levelOf symbol - 1 < levels.length := by
          rw [own] at isOperator
          exact Nat.lt_of_succ_lt_succ isOperator
        have read : (Formula.joined symbol left right).ReadJoined (levelOf symbol - 1) inside :=
          (readLeft.joined _ inside).joined own (readRight.level inside)
        exact read.readable own
      · have untyped {context : CompileContext} {state : CompileState} {asked : Nat} {ty : Ty}
            (writes : context.Writes state (.joined symbol left right) asked ty) : False := by
          obtain ⟨_, _, typed⟩ := Option.bind_eq_some_iff.mp writes.typed
          obtain ⟨_, _, fits⟩ := Option.bind_eq_some_iff.mp typed
          exact isOperator (levelOf_lt_of_joinedType fits)
        exact ⟨fun _ _ _ _ writes => (untyped writes).elim,
          fun _ _ _ _ _ _ writes => (untyped writes).elim,
          fun _ _ _ _ _ writes => (untyped writes).elim⟩

/--
A formula whose operators fit their operands, written with parentheses only where
they are needed, is compiled to the tree of that formula: exactly its lexemes are
consumed, and one expression is added for each of its leaves and operators.
-/
theorem expression_reads
    {context : CompileContext}
    {state : CompileState}
    {ty : Ty}
    (typed : formula.type? state.tree state.scope = some ty)
    (spelled : context.Spells state.position formula.lexemes)
    (stops : context.Stops 0 (state.position + formula.lexemes.length))
    (room : state.tree.exprs.size + formula.size ≤ UInt32.size) :
    expression.Reads context state formula formula.lexemes.length ty := by
  have inner : formula.lexemesAt 0 = formula.lexemes := lexemesAt_of_le (Nat.zero_le _)
  have few : formula.lexemes.length ≤ context.tokens.size := by
    have := stops.inside
    omega
  have count : tokenCount context state = .ok (context.tokens.size, state) := rfl
  have fewWhole : (formula.lexemesAt 0).length ≤ context.tokens.size := inner ▸ few
  obtain ⟨id, added, taken, shown⟩ :=
    formula.readable.whole ⟨typed, inner ▸ spelled, room⟩ (inner ▸ stops) fewWhole
  rw [inner] at taken
  refine ⟨id, added, ?_, shown⟩
  unfold expression
  rw [bind_eq count]
  exact taken

/-- The variables `a` and `b` of a function. -/
def pairScope : Scope :=
  ⟨none, false, some ⟨.int, #[⟨"a", .int⟩, ⟨"b", .int⟩], [[("b", ⟨1⟩), ("a", ⟨0⟩)]], []⟩⟩

/-- The formula `a - (b - -3) ** 2 < b ? a : b`. -/
def mixed : Formula :=
  .chosen
    (.joined .less
      (.joined .minus (.leaf ⟨.identifier, "a"⟩)
        (.joined .power
          (.joined .minus (.leaf ⟨.identifier, "b"⟩)
            (.prefixed .minus (.leaf ⟨.number, "3"⟩)))
          (.leaf ⟨.number, "2"⟩)))
      (.leaf ⟨.identifier, "b"⟩))
    (.leaf ⟨.identifier, "a"⟩) (.leaf ⟨.identifier, "b"⟩)

/-- The tokens of a text with the constants of the standard library. -/
def tokensOf (source : String) : TokenList :=
  TokenList.ofSource Registry.standard.constants source

/-- The formula in front of a semicolon. -/
def mixedContext : CompileContext :=
  ⟨(tokensOf "a - (b - -3) ** 2 < b ? a : b;").tokens, .standard⟩

/-- A formula with operators of five levels is compiled. -/
theorem expression_reads_mixed :
    mixed.type? {} pairScope = some .int ∧
      expression.Reads mixedContext ⟨0, {}, pairScope⟩ mixed mixed.lexemes.length .int := by
  have typed : mixed.type? {} pairScope = some .int := by decide +kernel
  have spelled :
      mixed.lexemes <+: (mixedContext.tokens.toList.drop 0).map Token.lexeme := by
    decide +kernel
  have inside : 0 + mixed.lexemes.length < mixedContext.tokens.size := by decide +kernel
  have isSemicolon :
      (mixedContext.token (0 + mixed.lexemes.length)).lexeme = .ofSymbol .semicolon := by
    decide +kernel
  have stops : mixedContext.Stops 0 (0 + mixed.lexemes.length) :=
    .ofSymbol inside isSemicolon (by decide)
  exact ⟨typed, @expression_reads mixed mixedContext ⟨0, {}, pairScope⟩ .int typed spelled stops
    (by decide)⟩

/-- A declared variable that is named like the receiver is not read by its name. -/
theorem receiver_not_read :
    (∃ scope, (Scope.enterFunction .int none false).declare "this" .int = .ok (⟨0⟩, scope) ∧
      scope.lookup? "this" = some (⟨0⟩, .int) ∧
      expression ⟨(tokensOf "this;").tokens, .standard⟩ ⟨0, {}, scope⟩ =
        .error ⟨.undefinedVariable, ⟨0, 4⟩⟩) ∧
    compile .standard (tokensOf "int main() \x7b int this = 1; return this; \x7d") =
      .error ⟨.undefinedVariable, ⟨34, 38⟩⟩ := by
  refine ⟨⟨⟨none, false, some ⟨.int, #[⟨"this", .int⟩], [[("this", ⟨0⟩)]], []⟩⟩, ?_, ?_, ?_⟩, ?_⟩ <;>
    decide +kernel

end Formula

end BotScript
