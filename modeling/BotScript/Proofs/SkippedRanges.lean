import BotScript.Proofs.ReadingSteps
import Mathlib.Logic.Relation

namespace BotScript

/-!
# Ranges of tokens that are skipped

Bodies and initial values are skipped by counting brackets.  How the count goes on
over a token is a step relation between positions with depths; a range of tokens
that ends at the depth at which it starts is passed by the loops that skip.
-/

/-- What a symbol is to a loop that skips tokens by counting brackets. -/
inductive Bracket where
  | opens
  | closes
  | bars
  | plain
  deriving Repr, DecidableEq, Inhabited

namespace Symbol

/-- What a symbol is where only braces count. -/
@[reducible]
def brace : Symbol → Bracket
  | .openBlock => .opens
  | .closeBlock => .closes
  | _ => .plain

/-- What a symbol is where all brackets count, and commas and semicolons end a value. -/
def bracket : Symbol → Bracket
  | .openPar | .openBracket | .openBlock => .opens
  | .closePar | .closeBracket | .closeBlock => .closes
  | .comma | .semicolon => .bars
  | _ => .plain

/-- What a symbol is behind the start of a function, whose body is to come. -/
def header : Symbol → Bracket
  | .openBlock => .opens
  | .closeBlock => .closes
  | .semicolon => .bars
  | _ => .plain

end Symbol

/-- What a symbol is that may not be there; what is no symbol is no bracket. -/
def Bracket.ofSymbol (count : Symbol → Bracket) (found : Option Symbol) : Bracket :=
  (found.map count).getD .plain

namespace CompileContext

/-- The keyword or operator at a position, if there is one. -/
def symbol? (context : CompileContext) (position : Nat) : Option Symbol :=
  (context.token position).symbol?

/-- What the token at a position is to a loop that counts brackets. -/
def bracket (context : CompileContext) (count : Symbol → Bracket) (position : Nat) : Bracket :=
  .ofSymbol count (context.symbol? position)

/-- Whether the text goes on at a position. -/
def GoesOn (context : CompileContext) (position : Nat) : Prop :=
  (context.token position).kind ≠ .endOfText

variable {context : CompileContext} {count : Symbol → Bracket} {position start stop : Nat}
  {symbol : Symbol}

/-- The text goes on where a symbol is. -/
theorem goesOn_of_symbol
    (isThere : context.symbol? position = some symbol) :
    context.GoesOn position := by
  intro isEnd
  simp [CompileContext.symbol?, Token.symbol?, isEnd] at isThere

/-- A token of the kind of a symbol is that symbol. -/
theorem symbol_of_kind
    (isKind : (context.token position).kind = .symbol symbol) :
    context.symbol? position = some symbol := by
  rw [CompileContext.symbol?, Token.symbol?, isKind]

/-- What a symbol is. -/
theorem bracket_of_symbol
    (isThere : context.symbol? position = some symbol) :
    context.bracket count position = count symbol := by
  simp [CompileContext.bracket, Bracket.ofSymbol, isThere]

/-- What is no symbol is no bracket. -/
theorem bracket_of_none
    (isMissing : context.symbol? position = none) :
    context.bracket count position = .plain := by
  simp [CompileContext.bracket, Bracket.ofSymbol, isMissing]

/-- What is a bracket is a symbol. -/
theorem symbol_of_bracket
    {bracket : Bracket}
    (isBracket : context.bracket count position = bracket)
    (notPlain : bracket ≠ .plain) :
    ∃ symbol, context.symbol? position = some symbol ∧ count symbol = bracket := by
  cases isThere : context.symbol? position with
  | none => exact absurd (isBracket.symm.trans (bracket_of_none isThere)) notPlain
  | some symbol => exact ⟨symbol, rfl, (bracket_of_symbol isThere).symm.trans isBracket⟩

/-- The text goes on where a bracket is. -/
theorem goesOn_of_bracket
    {bracket : Bracket}
    (isBracket : context.bracket count position = bracket)
    (notPlain : bracket ≠ .plain) :
    context.GoesOn position := by
  obtain ⟨symbol, isThere, -⟩ := symbol_of_bracket isBracket notPlain
  exact goesOn_of_symbol isThere

/-- The brace that closes is the only one to close. -/
theorem symbol_of_closes
    (closes : context.bracket Symbol.brace position = .closes) :
    context.symbol? position = some .closeBlock := by
  obtain ⟨symbol, isThere, isBracket⟩ := symbol_of_bracket closes (by decide)
  rw [isThere]
  cases symbol <;> first | rfl | cases isBracket

/-- The brace that opens is the only one to open. -/
theorem symbol_of_opens
    (opens : context.bracket Symbol.brace position = .opens) :
    context.symbol? position = some .openBlock := by
  obtain ⟨symbol, isThere, isBracket⟩ := symbol_of_bracket opens (by decide)
  rw [isThere]
  cases symbol <;> first | rfl | cases isBracket

/-- Braces are no bars. -/
theorem bracket_brace_ne_bars :
    context.bracket Symbol.brace position ≠ .bars := by
  intro bars
  obtain ⟨symbol, -, isBracket⟩ := symbol_of_bracket bars (by decide)
  cases symbol <;> cases isBracket

/-! ## Counting -/

/-- How the count of brackets goes on over a token, from a position with a depth. -/
inductive Climb (context : CompileContext) (count : Symbol → Bracket) :
    Nat × Nat → Nat × Nat → Prop where
  | opens
      {position depth : Nat} :
      context.bracket count position = .opens →
      Climb context count (position, depth) (position + 1, depth + 1)
  | closes
      {position depth : Nat} :
      context.bracket count position = .closes →
      Climb context count (position, depth + 1) (position + 1, depth)
  | inner
      {position depth : Nat} :
      context.bracket count position = .bars →
      Climb context count (position, depth + 1) (position + 1, depth + 1)
  | plain
      {position depth : Nat} :
      context.GoesOn position →
      context.bracket count position = .plain →
      Climb context count (position, depth) (position + 1, depth)

/-- How the count of brackets goes on over a range of tokens. -/
abbrev Climbs (context : CompileContext) (count : Symbol → Bracket) :
    Nat × Nat → Nat × Nat → Prop :=
  Relation.ReflTransGen (Climb context count)

/-- A range of tokens in which a header goes on. -/
def Free (context : CompileContext) (start stop : Nat) : Prop :=
  ∀ position, start ≤ position → position < stop →
    context.GoesOn position ∧ context.bracket Symbol.header position = .plain

/-- A range of tokens in which every bracket has its counterpart. -/
abbrev Even (context : CompileContext) (count : Symbol → Bracket) (start stop : Nat) : Prop :=
  context.Climbs count (start, 0) (stop, 0)

variable {first last : Nat × Nat}

/-- The count goes on over one token, which is not the end of the text. -/
theorem Climb.goesOn
    (climb : context.Climb count first last) :
    last.1 = first.1 + 1 ∧ context.GoesOn first.1 := by
  cases climb with
  | opens opens => exact ⟨rfl, goesOn_of_bracket opens (by decide)⟩
  | closes closes => exact ⟨rfl, goesOn_of_bracket closes (by decide)⟩
  | inner bars => exact ⟨rfl, goesOn_of_bracket bars (by decide)⟩
  | plain goesOn _ => exact ⟨rfl, goesOn⟩

/-- The count goes on in the same way inside of more brackets. -/
theorem Climb.lift
    (climb : context.Climb count first last)
    (more : Nat) :
    context.Climb count (first.1, first.2 + more) (last.1, last.2 + more) := by
  cases climb with
  | opens opens =>
      rw [Nat.add_right_comm]
      exact .opens opens
  | closes closes =>
      rw [Nat.add_right_comm]
      exact .closes closes
  | inner bars =>
      rw [Nat.add_right_comm]
      exact .inner bars
  | plain goesOn isPlain => exact .plain goesOn isPlain

/-- The count goes on in the same way over a range inside of more brackets. -/
theorem Climbs.lift
    (climbs : context.Climbs count first last)
    (more : Nat) :
    context.Climbs count (first.1, first.2 + more) (last.1, last.2 + more) := by
  induction climbs with
  | refl => exact .refl
  | tail _ climb inductionHypothesis => exact inductionHypothesis.tail (climb.lift more)

/-- The tokens of a range that is counted are not the end of the text. -/
theorem Climbs.goesOn
    (climbs : context.Climbs count first last) :
    first.1 ≤ last.1 ∧ ∀ position, first.1 ≤ position → position < last.1 →
      context.GoesOn position := by
  induction climbs with
  | refl => exact ⟨Nat.le_refl _, fun position le lt => absurd lt (Nat.not_lt.mpr le)⟩
  | @tail middle last _ climb inductionHypothesis =>
      obtain ⟨isNext, goesOn⟩ := climb.goesOn
      obtain ⟨le, inside⟩ := inductionHypothesis
      refine ⟨by omega, fun position isLe isLt => ?_⟩
      by_cases isLast : position = middle.1
      · rwa [isLast]
      · exact inside position isLe (by omega)

/-- A brace that is open at the start of a range and not at its end is closed in it. -/
theorem Climbs.closing
    {depth inner : Nat}
    (climbs : context.Climbs Symbol.brace first last)
    (deep : first.2 = depth + 1 + inner)
    (left : last.2 ≤ depth) :
    ∃ close, context.Climbs Symbol.brace (first.1, inner) (close, 0) ∧
      context.bracket Symbol.brace close = .closes ∧
      context.Climbs Symbol.brace (close + 1, depth) last := by
  induction climbs using Relation.ReflTransGen.head_induction_on generalizing inner with
  | refl => omega
  | head climb rest inductionHypothesis =>
      cases climb with
      | opens opens =>
          obtain ⟨close, climbs, closes, after⟩ :=
            @inductionHypothesis (inner + 1) (by dsimp only at deep ⊢; omega)
          exact ⟨close, .head (.opens opens) climbs, closes, after⟩
      | @closes position level closes =>
          cases inner with
          | zero =>
              obtain rfl : level = depth := by dsimp only at deep; omega
              exact ⟨position, .refl, closes, rest⟩
          | succ inner =>
              obtain ⟨close, climbs, isClose, after⟩ :=
                @inductionHypothesis inner (by dsimp only at deep ⊢; omega)
              exact ⟨close, .head (.closes closes) climbs, isClose, after⟩
      | inner bars => exact absurd bars bracket_brace_ne_bars
      | plain goesOn isPlain =>
          obtain ⟨close, climbs, closes, after⟩ := inductionHypothesis deep
          exact ⟨close, .head (.plain goesOn isPlain) climbs, closes, after⟩

end CompileContext

/-! ## Loops that skip -/

namespace Compile

variable {α σ : Type} {context : CompileContext} {count : Symbol → Bracket} {start stop : Nat}

/--
Wherever it starts at a position, a step succeeds with a value, and it changes nothing
but the position.
-/
def Crosses (context : CompileContext) (step : Compile α) (value : α) (start stop : Nat) : Prop :=
  ∀ state, state.position = start →
    step context state = .ok (value, { state with position := stop })

/-- A step from a position leads to one other position only. -/
theorem Crosses.unique
    {step : Compile α}
    {value other : α}
    {after : Nat}
    (crosses : Crosses context step value start stop)
    (again : Crosses context step other start after) :
    stop = after := by
  let state : CompileState := { position := start }
  cases (crosses state rfl).symm.trans (again state rfl)
  rfl

/-- The next token is moved to, the end of the text apart. -/
theorem advance_crosses
    (ended : context.Ended)
    (goesOn : context.GoesOn start) :
    Crosses context advance () start (start + 1) := by
  rintro state rfl
  have moved :
      advance context state =
        .ok ((), if state.position + 1 < context.tokens.size then
          { state with position := state.position + 1 } else state) :=
    rfl
  rw [moved, if_pos (ended.lt_size goesOn)]

/-- A turn that goes on is followed by the next one. -/
theorem loopWithin_again
    {step : σ → Compile (Turn σ α)}
    {bound : Nat}
    {first next : σ}
    {state between : CompileState}
    (taken : step first context state = .ok (.again next, between)) :
    loopWithin step (bound + 1) first context state = loopWithin step bound next context between := by
  rw [loopWithin, bind_eq taken]

/-- A turn that ends the loop gives its result. -/
theorem loopWithin_done
    {step : σ → Compile (Turn σ α)}
    {bound : Nat}
    {first : σ}
    {result : α}
    {state after : CompileState}
    (taken : step first context state = .ok (.done result, after)) :
    loopWithin step (bound + 1) first context state = .ok (result, after) := by
  rw [loopWithin, bind_eq taken]
  rfl

/-- A loop that counts brackets goes over a range as its count does. -/
theorem loopWithin_climbs
    {turn : Nat → Compile (Turn Nat Unit)}
    (offset : Nat)
    (turns : ∀ first last, context.Climb count first last →
      Crosses context (turn (first.2 + offset)) (.again (last.2 + offset)) first.1 last.1)
    {first last : Nat × Nat}
    (climbs : context.Climbs count first last)
    (bound : Nat)
    {state : CompileState}
    (starts : state.position = first.1) :
    loopWithin turn (bound + (last.1 - first.1)) (first.2 + offset) context state =
      loopWithin turn bound (last.2 + offset) context { state with position := last.1 } := by
  induction climbs using Relation.ReflTransGen.head_induction_on generalizing state with
  | refl =>
      rw [Nat.sub_self, ← starts]
      rfl
  | @head first middle climb rest inductionHypothesis =>
      obtain ⟨isNext, -⟩ := climb.goesOn
      obtain ⟨le, -⟩ := CompileContext.Climbs.goesOn rest
      have oneMore : bound + (last.1 - first.1) = bound + (last.1 - middle.1) + 1 := by omega
      rw [oneMore, loopWithin_again (turns first middle climb state starts)]
      exact inductionHypothesis rfl

/-- Whether the text is at its end is seen from the token at hand. -/
theorem atEnd_eq
    {state : CompileState}
    (goesOn : context.GoesOn state.position) :
    atEnd context state = .ok (false, state) := by
  have looked :
      atEnd context state = .ok ((context.token state.position).kind == .endOfText, state) := rfl
  rw [looked, beq_eq_false_iff_ne.mpr goesOn]

/-- A loop starts with as many turns as there are tokens, and one more. -/
theorem loop_eq
    {step : σ → Compile (Turn σ α)}
    (first : σ)
    (state : CompileState) :
    loop step first context state =
      loopWithin step (context.tokens.size + 1) first context state :=
  rfl

/-! ## Groups in braces -/

/-- One turn of skipping a group in braces, by what is at hand. -/
def skipBlockTurn (depth : Nat) : Bracket → Compile (Turn Nat Unit)
  | .opens => do
      advance
      return .again (depth + 1)
  | .closes => do
      advance
      if depth ≤ 1 then return .done () else return .again (depth - 1)
  | .bars | .plain => do
      if ← atEnd then fail .closeBlock
      advance
      return .again depth

/-- The turns of skipping a group in braces. -/
def skipBlockTurns (depth : Nat) : Compile (Turn Nat Unit) := do
  skipBlockTurn depth (.ofSymbol Symbol.brace (← symbol?))

/-- A group in braces is skipped by counting them. -/
theorem skipBlock_eq : skipBlock = loop skipBlockTurns 0 := by
  unfold skipBlock skipBlockTurns
  congr
  funext depth
  congr
  funext found
  cases found with
  | none => rfl
  | some symbol => cases symbol <;> rfl

/-- A turn depends on the token at hand. -/
theorem skipBlockTurns_eq
    {depth : Nat}
    {state : CompileState}
    (starts : state.position = start) :
    skipBlockTurns depth context state =
      skipBlockTurn depth (context.bracket Symbol.brace start) context state := by
  subst starts
  rfl

/-- A turn that skips a group in braces counts the brace at hand, if there is one. -/
theorem skipBlockTurns_crosses
    (ended : context.Ended)
    {first last : Nat × Nat}
    (climb : context.Climb Symbol.brace first last) :
    Crosses context (skipBlockTurns (first.2 + 1)) (.again (last.2 + 1)) first.1 last.1 := by
  intro state starts
  obtain ⟨-, goesOn⟩ := climb.goesOn
  have moved := advance_crosses ended goesOn state starts
  rw [skipBlockTurns_eq starts]
  cases climb with
  | opens opens =>
      rw [opens]
      exact bind_eq moved
  | closes closes =>
      rw [closes, skipBlockTurn, bind_eq moved, if_neg (by omega)]
      rfl
  | inner bars => exact absurd bars CompileContext.bracket_brace_ne_bars
  | plain goesOn isPlain =>
      rw [isPlain, skipBlockTurn, bind_eq (atEnd_eq (starts ▸ goesOn)), if_neg Bool.false_ne_true]
      exact bind_eq moved

/-- A group in braces is skipped up to behind the brace that closes it. -/
theorem skipBlock_crosses
    (ended : context.Ended)
    {close : Nat}
    (opens : context.bracket Symbol.brace start = .opens)
    (even : context.Even Symbol.brace (start + 1) close)
    (closes : context.bracket Symbol.brace close = .closes) :
    Crosses context skipBlock () start (close + 1) := by
  intro state starts
  obtain ⟨le, -⟩ := even.goesOn
  have goesOn := CompileContext.goesOn_of_bracket opens (by decide)
  have goesFurther := CompileContext.goesOn_of_bracket closes (by decide)
  have inside := ended.lt_size goesFurther
  obtain ⟨spare, isSpare⟩ : ∃ spare, context.tokens.size = spare + 1 + (close - (start + 1)) :=
    ⟨context.tokens.size - 1 - (close - (start + 1)), by omega⟩
  have opening :
      skipBlockTurns 0 context state = .ok (.again 1, { state with position := start + 1 }) := by
    rw [skipBlockTurns_eq starts, opens]
    exact bind_eq (advance_crosses ended goesOn state starts)
  rw [skipBlock_eq, loop_eq, loopWithin_again opening, isSpare]
  rw [loopWithin_climbs 1 (fun _ _ => skipBlockTurns_crosses ended) even (spare + 1) rfl]
  refine loopWithin_done ?_
  rw [skipBlockTurns_eq rfl, closes, skipBlockTurn, bind_eq (advance_crosses ended goesFurther _ rfl)]
  rfl

/-- Where a brace is skipped to that closes some others, they are closed in between. -/
theorem loopWithin_skipBlockTurns
    (ended : context.Ended)
    {bound depth : Nat}
    {state after : CompileState}
    (runs : loopWithin skipBlockTurns bound (depth + 1) context state = .ok ((), after)) :
    ∃ close, context.Climbs Symbol.brace (state.position, depth) (close, 0) ∧
      context.bracket Symbol.brace close = .closes ∧ after.position = close + 1 := by
  induction bound generalizing depth state with
  | zero => cases runs
  | succ bound inductionHypothesis =>
      rw [loopWithin] at runs
      obtain ⟨turn, between, taken, runs⟩ := bind_ok runs
      rw [skipBlockTurns_eq rfl] at taken
      have moved (goesOn : context.GoesOn state.position) :=
        advance_crosses ended goesOn state rfl
      cases isBracket : context.bracket Symbol.brace state.position with
      | opens =>
          have goesOn := CompileContext.goesOn_of_bracket isBracket (by decide)
          rw [isBracket, skipBlockTurn, bind_eq (moved goesOn)] at taken
          cases taken
          obtain ⟨close, climbs, closes, isAfter⟩ := inductionHypothesis runs
          exact ⟨close, .head (.opens isBracket) climbs, closes, isAfter⟩
      | closes =>
          have goesOn := CompileContext.goesOn_of_bracket isBracket (by decide)
          rw [isBracket, skipBlockTurn, bind_eq (moved goesOn)] at taken
          cases depth with
          | zero =>
              cases taken
              cases runs
              exact ⟨state.position, .refl, isBracket, rfl⟩
          | succ depth =>
              rw [if_neg (by omega)] at taken
              cases taken
              obtain ⟨close, climbs, closes, isAfter⟩ := inductionHypothesis runs
              exact ⟨close, .head (.closes isBracket) climbs, closes, isAfter⟩
      | bars => exact absurd isBracket CompileContext.bracket_brace_ne_bars
      | plain =>
          rw [isBracket, skipBlockTurn] at taken
          obtain ⟨isEnd, _, looked, taken⟩ := bind_ok taken
          cases looked
          split at taken
          · obtain ⟨_, _, fails, -⟩ := bind_ok taken
            cases fails
          · next isInside =>
            have goesOn : context.GoesOn state.position := fun isEnd =>
              isInside (beq_iff_eq.mpr isEnd)
            obtain ⟨_, _, advanced, taken⟩ := bind_ok taken
            cases (moved goesOn).symm.trans advanced
            cases taken
            obtain ⟨close, climbs, closes, isAfter⟩ := inductionHypothesis runs
            exact ⟨close, .head (.plain goesOn isBracket) climbs, closes, isAfter⟩

/-- Where a group in braces is skipped, its brace is closed. -/
theorem skipBlock_ok
    (ended : context.Ended)
    {state after : CompileState}
    (opens : context.bracket Symbol.brace state.position = .opens)
    (runs : skipBlock context state = .ok ((), after)) :
    ∃ close, context.Even Symbol.brace (state.position + 1) close ∧
      context.bracket Symbol.brace close = .closes ∧ after.position = close + 1 := by
  have goesOn := CompileContext.goesOn_of_bracket opens (by decide)
  have opening : skipBlockTurns 0 context state =
      .ok (.again 1, { state with position := state.position + 1 }) := by
    rw [skipBlockTurns_eq rfl, opens]
    exact bind_eq (advance_crosses ended goesOn state rfl)
  rw [skipBlock_eq, loop_eq, loopWithin_again opening] at runs
  exact loopWithin_skipBlockTurns ended runs

/-! ## Initial values -/

/-- One turn of skipping the initial value of a field, by what is at hand. -/
def skipInitializerTurn (depth : Nat) : Bracket → Compile (Turn Nat Unit)
  | .opens => do
      advance
      return .again (depth + 1)
  | .closes => do
      if depth = 0 then return .done ()
      advance
      return .again (depth - 1)
  | .bars => do
      if depth = 0 then return .done ()
      advance
      return .again depth
  | .plain => do
      if ← atEnd then fail .noTerminator
      advance
      return .again depth

/-- The turns of skipping the initial value of a field. -/
def skipInitializerTurns (depth : Nat) : Compile (Turn Nat Unit) := do
  skipInitializerTurn depth (.ofSymbol Symbol.bracket (← symbol?))

/-- The initial value of a field is skipped by counting brackets. -/
theorem skipInitializer_eq : skipInitializer = loop skipInitializerTurns 0 := by
  unfold skipInitializer skipInitializerTurns
  congr
  funext depth
  congr
  funext found
  cases found with
  | none => rfl
  | some symbol => cases symbol <;> rfl

/-- A turn depends on the token at hand. -/
theorem skipInitializerTurns_eq
    {depth : Nat}
    {state : CompileState}
    (starts : state.position = start) :
    skipInitializerTurns depth context state =
      skipInitializerTurn depth (context.bracket Symbol.bracket start) context state := by
  subst starts
  rfl

/-- A turn that skips an initial value counts the bracket at hand, if there is one. -/
theorem skipInitializerTurns_crosses
    (ended : context.Ended)
    {first last : Nat × Nat}
    (climb : context.Climb Symbol.bracket first last) :
    Crosses context (skipInitializerTurns first.2) (.again last.2) first.1 last.1 := by
  intro state starts
  obtain ⟨-, goesOn⟩ := climb.goesOn
  have moved := advance_crosses ended goesOn state starts
  rw [skipInitializerTurns_eq starts]
  cases climb with
  | opens opens =>
      rw [opens]
      exact bind_eq moved
  | closes closes =>
      rw [closes]
      exact bind_eq moved
  | inner bars =>
      rw [bars]
      exact bind_eq moved
  | plain goesOn isPlain =>
      rw [isPlain, skipInitializerTurn, bind_eq (atEnd_eq (starts ▸ goesOn)),
        if_neg Bool.false_ne_true]
      exact bind_eq moved

/-- An initial value is skipped up to the comma or semicolon that ends it. -/
theorem skipInitializer_crosses
    (ended : context.Ended)
    (even : context.Even Symbol.bracket start stop)
    (bars : context.bracket Symbol.bracket stop = .bars) :
    Crosses context skipInitializer () start stop := by
  intro state starts
  obtain ⟨le, -⟩ := even.goesOn
  have inside := ended.lt_size (CompileContext.goesOn_of_bracket bars (by decide))
  obtain ⟨spare, isSpare⟩ : ∃ spare, context.tokens.size + 1 = spare + 1 + (stop - start) :=
    ⟨context.tokens.size - (stop - start), by omega⟩
  rw [skipInitializer_eq, loop_eq, isSpare]
  rw [loopWithin_climbs 0 (fun _ _ => skipInitializerTurns_crosses ended) even
    (spare + 1) starts]
  refine loopWithin_done ?_
  rw [skipInitializerTurns_eq rfl, bars]
  rfl

/-! ## Headers -/

/-- One turn of skipping the header of a function, by what is at hand. -/
def skipToBodyTurn : Bracket → Compile (Turn Unit Bool)
  | .opens => do
      skipBlock
      return .done true
  | .closes | .bars => return .done false
  | .plain => do
      if ← atEnd then return .done false
      advance
      return .again ()

/-- The turns of skipping the header of a function. -/
def skipToBodyTurns (_ : Unit) : Compile (Turn Unit Bool) := do
  skipToBodyTurn (.ofSymbol Symbol.header (← symbol?))

/-- The header of a function is skipped up to what ends it, and a body behind it too. -/
theorem skipToBody_eq : skipToBody = loop skipToBodyTurns () := by
  unfold skipToBody skipToBodyTurns
  congr
  funext _
  congr
  funext found
  cases found with
  | none => rfl
  | some symbol => cases symbol <;> rfl

/-- A turn depends on the token at hand. -/
theorem skipToBodyTurns_eq
    {state : CompileState}
    (starts : state.position = start) :
    skipToBodyTurns () context state =
      skipToBodyTurn (context.bracket Symbol.header start) context state := by
  subst starts
  rfl

/-- A function is skipped up to the end of the first group in braces. -/
theorem skipToBody_crosses
    (ended : context.Ended)
    {body : Nat}
    (le : start ≤ body)
    (free : context.Free start body)
    (opens : context.bracket Symbol.header body = .opens)
    (skips : Crosses context skipBlock () body stop) :
    Crosses context skipToBody true start stop := by
  have turns (gap spare : Nat) {state : CompileState} (starts : state.position + gap = body)
      (inside : start ≤ state.position) :
      loopWithin skipToBodyTurns (gap + spare + 1) () context state =
        .ok (true, { state with position := stop }) := by
    induction gap generalizing state with
    | zero =>
        refine loopWithin_done ?_
        have isBody : state.position = body := starts
        rw [skipToBodyTurns_eq isBody, opens, skipToBodyTurn, bind_eq (skips state isBody)]
        rfl
    | succ gap inductionHypothesis =>
        obtain ⟨goesOn, isPlain⟩ := free state.position inside (by omega)
        have again :
            skipToBodyTurns () context state =
              .ok (.again (), { state with position := state.position + 1 }) := by
          rw [skipToBodyTurns_eq rfl, isPlain, skipToBodyTurn, bind_eq (atEnd_eq goesOn),
            if_neg Bool.false_ne_true]
          exact bind_eq (advance_crosses ended goesOn state rfl)
        rw [show gap + 1 + spare + 1 = gap + spare + 1 + 1 by omega, loopWithin_again again]
        exact inductionHypothesis (by dsimp only; omega) (by dsimp only; omega)
  rintro state rfl
  have within := ended.lt_size (CompileContext.goesOn_of_bracket opens (by decide))
  obtain ⟨spare, isSpare⟩ :
      ∃ spare, context.tokens.size + 1 = body - state.position + spare + 1 :=
    ⟨context.tokens.size - (body - state.position), by omega⟩
  rw [skipToBody_eq, loop_eq, isSpare]
  exact turns _ spare (by omega) (Nat.le_refl _)

end Compile

end BotScript
