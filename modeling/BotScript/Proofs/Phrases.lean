import BotScript.Proofs.ReadRanges

namespace BotScript

/-!
# Phrases

An expression consumes a range of tokens in which every bracket has its counterpart
of the same kind; outside of its brackets there is no comma, and nowhere a semicolon.
A brace that closes a list is followed by something that begins no declaration.
-/

/-- Whether a symbol begins a declaration: it is a modifier, a type or the keyword of classes. -/
def Symbol.begins (symbol : Symbol) : Bool :=
  symbol.isModifier || symbol.isTypeKeyword || symbol == .classKw

namespace CompileContext

/-- Whether a declaration may begin with the token at a position. -/
def begins (context : CompileContext) (position : Nat) : Bool :=
  (context.token position).kind == .identifier ||
    (context.symbol? position).any Symbol.begins

variable {context : CompileContext} {position start middle stop close depth : Nat}
  {symbol : Symbol} {bounded : Prop}

/-- A symbol does not begin a declaration if it is no modifier, no type and no such keyword. -/
theorem begins_of_symbol
    (isThere : context.symbol? position = some symbol) :
    context.begins position = symbol.begins := by
  have noIdentifier : ((context.token position).kind == .identifier) = false := by
    refine beq_eq_false_iff_ne.mpr fun isIdentifier => ?_
    simp [CompileContext.symbol?, Token.symbol?, isIdentifier] at isThere
  rw [CompileContext.begins, noIdentifier, isThere]
  rfl

/-- The token at a position is neither a bracket nor a separator. -/
structure Plain (context : CompileContext) (position : Nat) : Prop where
  goesOn : context.GoesOn position
  isPlain : context.bracket Symbol.bracket position = .plain

namespace Plain

/-- A symbol that is no bracket. -/
theorem ofSymbol
    (isThere : context.symbol? position = some symbol)
    (isPlain : symbol.bracket = .plain) :
    context.Plain position :=
  ⟨goesOn_of_symbol isThere, (bracket_of_symbol isThere).trans isPlain⟩

/-- A token that is no symbol. -/
theorem ofKind
    (goesOn : context.GoesOn position)
    (isMissing : context.symbol? position = none) :
    context.Plain position :=
  ⟨goesOn, bracket_of_none isMissing⟩

/-- An identifier. -/
theorem ofIdentifier
    (isIdentifier : (context.token position).kind = .identifier) :
    context.Plain position :=
  ofKind (by rw [GoesOn, isIdentifier]; decide)
    (by rw [CompileContext.symbol?, Token.symbol?, isIdentifier])

/-- What is no bracket is no such symbol. -/
theorem symbol_ne
    (isPlain : context.Plain position)
    (isBracket : symbol.bracket ≠ .plain) :
    context.symbol? position ≠ some symbol :=
  fun isThere => isBracket ((bracket_of_symbol isThere).symm.trans isPlain.isPlain)

/-- What is no bracket is no brace. -/
theorem brace
    (isPlain : context.Plain position) :
    context.bracket Symbol.brace position = .plain := by
  cases isThere : context.symbol? position with
  | none => exact bracket_of_none isThere
  | some symbol =>
      have isPlain := (bracket_of_symbol isThere).symm.trans isPlain.isPlain
      rw [bracket_of_symbol isThere]
      cases symbol <;> first | rfl | cases isPlain

/-- One token that is no brace. -/
theorem even
    (isPlain : context.Plain position) :
    context.Even Symbol.brace position (position + 1) :=
  .single (.plain isPlain.goesOn isPlain.brace)

end Plain

/--
A range of tokens of an expression inside of some brackets.  If it is bounded, what
follows its last token begins no declaration where that is a brace.
-/
structure Phrase (context : CompileContext) (bounded : Prop) (depth start stop : Nat) : Prop where
  groups : context.Climbs Symbol.bracket (start, depth) (stop, depth)
  braces : context.Even Symbol.brace start stop
  noSemicolon :
    ∀ position, start ≤ position → position < stop → context.symbol? position ≠ some .semicolon
  followed :
    bounded → ∀ position, start ≤ position → position < stop →
      context.symbol? position = some .closeBlock → context.begins (position + 1) = false

/-- A range of tokens of an expression, whatever follows it. -/
def Piece (context : CompileContext) (start stop : Nat) : Prop :=
  ∀ bounded : Prop, (bounded → context.begins stop = false) → context.Phrase bounded 0 start stop

namespace Phrase

/-- No tokens at all. -/
theorem empty : context.Phrase bounded depth start start :=
  ⟨.refl, .refl, fun _ le lt => absurd lt (Nat.not_lt.mpr le),
    fun _ _ le lt => absurd lt (Nat.not_lt.mpr le)⟩

/-- One range behind another one. -/
theorem append
    (first : context.Phrase bounded depth start middle)
    (second : context.Phrase bounded depth middle stop) :
    context.Phrase bounded depth start stop := by
  have split (position : Nat) (isBehind : ¬position < middle) : middle ≤ position :=
    Nat.not_lt.mp isBehind
  refine ⟨first.groups.trans second.groups, first.braces.trans second.braces,
    fun position le lt => ?_, fun isBounded position le lt => ?_⟩
  · by_cases isFirst : position < middle
    · exact first.noSemicolon position le isFirst
    · exact second.noSemicolon position (split position isFirst) lt
  · by_cases isFirst : position < middle
    · exact first.followed isBounded position le isFirst
    · exact second.followed isBounded position (split position isFirst) lt

/-- A range that is bounded is one that need not be. -/
theorem weaken
    {fewer : Prop}
    (phrase : context.Phrase bounded depth start stop)
    (isBounded : fewer → bounded) :
    context.Phrase fewer depth start stop :=
  ⟨phrase.groups, phrase.braces, phrase.noSemicolon,
    fun isFewer => phrase.followed (isBounded isFewer)⟩

/-- A range inside of more brackets. -/
theorem deeper
    (phrase : context.Phrase bounded 0 start stop) :
    context.Phrase bounded depth start stop := by
  refine ⟨?_, phrase.braces, phrase.noSemicolon, phrase.followed⟩
  have lifted := phrase.groups.lift depth
  rwa [Nat.zero_add] at lifted

/-- One token that is no brace, with the steps that the counts take over it. -/
theorem ofToken
    (climb : context.Climb Symbol.bracket (position, depth) (position + 1, depth))
    (isPlain : context.bracket Symbol.brace position = .plain)
    (noSemicolon : context.symbol? position ≠ some .semicolon) :
    context.Phrase bounded depth position (position + 1) := by
  have isOnly {other : Nat} (le : position ≤ other) (lt : other < position + 1) :
      other = position := by
    omega
  refine ⟨.single climb, .single (.plain climb.goesOn.2 isPlain), fun other le lt => ?_,
    fun _ other le lt isClose => ?_⟩
  · exact isOnly le lt ▸ noSemicolon
  · obtain rfl := isOnly le lt
    rw [bracket_of_symbol isClose] at isPlain
    cases isPlain

/-- One token that is neither a bracket nor a separator. -/
theorem token
    (isPlain : context.Plain position) :
    context.Phrase bounded depth position (position + 1) :=
  ofToken (.plain isPlain.goesOn isPlain.isPlain) isPlain.brace (isPlain.symbol_ne (by decide))

/-- A comma inside of brackets. -/
theorem comma
    (isThere : context.symbol? position = some .comma) :
    context.Phrase bounded (depth + 1) position (position + 1) :=
  ofToken (.inner (bracket_of_symbol isThere)) (bracket_of_symbol isThere)
    (by rw [isThere]; decide)

/-- A range between two brackets of a kind, of which the braces are counted separately. -/
theorem enclosed
    {opening closing : Symbol}
    (opens : context.symbol? start = some opening)
    (isOpening : opening.bracket = .opens)
    (inner : context.Phrase True 1 (start + 1) close)
    (closes : context.symbol? close = some closing)
    (isClosing : closing.bracket = .closes)
    (braces : context.Even Symbol.brace start (close + 1))
    (isBounded :
      context.symbol? close = some .closeBlock → bounded → context.begins (close + 1) = false) :
    context.Phrase bounded depth start (close + 1) := by
  have between (position : Nat) (le : start ≤ position) (lt : position < close + 1) :
      position = start ∨ position = close ∨ start + 1 ≤ position ∧ position < close := by
    omega
  refine ⟨?_, braces, fun position le lt => ?_, fun bound position le lt isClose => ?_⟩
  · have lifted := inner.groups.lift depth
    simp only [Nat.add_comm 1 depth] at lifted
    have opened : context.Climb Symbol.bracket (start, depth) (start + 1, depth + 1) :=
      .opens ((bracket_of_symbol opens).trans isOpening)
    exact .head opened (lifted.tail (.closes ((bracket_of_symbol closes).trans isClosing)))
  · obtain rfl | rfl | ⟨isBehind, isBefore⟩ := between position le lt
    · rw [opens]
      rintro ⟨⟩
      cases isOpening
    · rw [closes]
      rintro ⟨⟩
      cases isClosing
    · exact inner.noSemicolon position isBehind isBefore
  · obtain rfl | rfl | ⟨isBehind, isBefore⟩ := between position le lt
    · rw [opens] at isClose
      cases isClose
      cases isOpening
    · exact isBounded isClose bound
    · exact inner.followed trivial position isBehind isBefore isClose

/-- A group in parentheses or in brackets. -/
theorem group
    {opening closing : Symbol}
    (opens : context.symbol? start = some opening)
    (inner : context.Phrase True 1 (start + 1) close)
    (closes : context.symbol? close = some closing)
    (pair :
      (opening, closing) ∈ [(Symbol.openPar, Symbol.closePar), (.openBracket, .closeBracket)]) :
    context.Phrase bounded depth start (close + 1) := by
  obtain ⟨isOpening, isClosing, notOpening, notClosing⟩ :
      opening.bracket = .opens ∧ closing.bracket = .closes ∧
        opening.brace = .plain ∧ closing.brace = .plain := by
    simp only [List.mem_cons, Prod.mk.injEq, List.not_mem_nil, or_false] at pair
    obtain ⟨rfl, rfl⟩ | ⟨rfl, rfl⟩ := pair <;> exact ⟨rfl, rfl, rfl, rfl⟩
  have opened : context.Climb Symbol.brace (start, 0) (start + 1, 0) :=
    .plain (goesOn_of_symbol opens) ((bracket_of_symbol opens).trans notOpening)
  refine enclosed opens isOpening inner closes isClosing ?_ fun isClose => ?_
  · exact .head opened (inner.braces.tail
      (.plain (goesOn_of_symbol closes) ((bracket_of_symbol closes).trans notClosing)))
  · cases closes.symm.trans isClose
    cases notClosing

/-- A list in braces. -/
theorem list
    (opens : context.symbol? start = some .openBlock)
    (inner : context.Phrase True 1 (start + 1) close)
    (closes : context.symbol? close = some .closeBlock)
    (isBounded : bounded → context.begins (close + 1) = false) :
    context.Phrase bounded depth start (close + 1) := by
  have opened : context.Climb Symbol.brace (start, 0) (start + 1, 0 + 1) :=
    .opens (bracket_of_symbol opens)
  refine enclosed opens rfl inner closes rfl ?_ fun _ => isBounded
  exact .head opened ((inner.braces.lift 1).tail (.closes (bracket_of_symbol closes)))

end Phrase

namespace Piece

/-- An expression in front of what begins no declaration. -/
theorem whole
    (piece : context.Piece start stop)
    (isOther : context.begins stop = false) :
    context.Phrase True 0 start stop :=
  piece True fun _ => isOther

/-- An expression in front of a symbol. -/
theorem before
    (piece : context.Piece start stop)
    (isThere : context.symbol? stop = some symbol)
    (isOther : symbol.begins = false) :
    context.Phrase True 0 start stop :=
  piece.whole ((begins_of_symbol isThere).trans isOther)

/-- A range of tokens that is bounded in any case. -/
theorem ofPhrase
    (phrase : context.Phrase True 0 start stop) :
    context.Piece start stop :=
  fun _ _ => phrase.weaken fun _ => trivial

/-- An expression at the end of a range. -/
theorem after
    (piece : context.Piece middle stop)
    (phrase : context.Phrase True 0 start middle) :
    context.Piece start stop :=
  fun bounded isBounded => (phrase.weaken fun _ => trivial).append (piece bounded isBounded)

end Piece

end CompileContext

/-! ## Expressions -/

namespace Compile

open CompileContext

variable {α : Type} {context : CompileContext} {nested : Compile ExprId}

/-- Wherever a step succeeds, it consumes the tokens of an expression. -/
def ReadsPiece (context : CompileContext) (step : Compile α) : Prop :=
  ∀ start, Takes context start (fun stop _ => context.Piece start stop) step

/-- Wherever a step succeeds, it consumes tokens of an expression of which no brace is the last. -/
def ReadsPhrase (context : CompileContext) (step : Compile α) : Prop :=
  ∀ start, Takes context start (fun stop _ => context.Phrase True 0 start stop) step

section Nested

variable (ended : context.Ended) (pieces : ReadsPiece context nested)
include ended pieces

/-- The arguments of a call consume a group in parentheses. -/
theorem arguments_phrase : ReadsPhrase context (arguments nested) := by
  intro start
  unfold arguments
  refine .expecting ended fun opens => ?_
  refine .eating ended (fun closes => ?_) fun _ => ?_
  · exact .pure (.group opens .empty closes (by decide))
  · refine .loop
      (H := fun position _ => context.Phrase True 1 (start + 1) position) .empty
      fun position collected inner => ?_
    refine (pieces position).bind fun stop value piece => ?_
    refine .eating ended (fun closes => ?_) fun _ => ?_
    · exact .pure (.group opens (inner.append (piece.before closes rfl).deeper) closes (by decide))
    · refine .expecting ended fun isComma => ?_
      exact .pure ((inner.append (piece.before isComma rfl).deeper).append (.comma isComma))

/-- A construction consumes a phrase. -/
theorem newExpression_phrase
    {start : Nat}
    (isNew : context.symbol? start = some .newKw) :
    Takes context start (fun stop _ => context.Phrase True 0 start stop)
      (newExpression nested) := by
  unfold newExpression
  refine .behind fun place => .advancing ended (goesOn_of_symbol isNew) ?_
  refine .identifying ended fun isName name => ?_
  have named : context.Phrase True 0 start (start + 2) :=
    (Phrase.token (.ofSymbol isNew rfl)).append (.token (.ofIdentifier isName))
  refine .behind fun found => .behind fun id => ?_
  refine .lookingAt (fun _ => ?_) fun _ => ?_
  · rw [if_pos rfl]
    refine (arguments_phrase ended pieces _).bind fun stop values phrase => ?_
    exact .still fun _ => named.append phrase
  · rw [if_neg Bool.false_ne_true]
    exact .still fun _ => named

/-- What begins with an identifier consumes a phrase. -/
theorem identifier_phrase
    {start : Nat}
    (isName : (context.token start).kind = .identifier) :
    Takes context start (fun stop _ => context.Phrase True 0 start stop)
      (identifier nested) := by
  have named : context.Phrase True 0 start (start + 1) := .token (.ofIdentifier isName)
  unfold identifier
  refine .behind fun name => .behind fun place => ?_
  refine .advancing ended (by rw [GoesOn, isName]; decide) ?_
  refine .lookingAt (fun _ => ?_) fun _ => ?_
  · rw [if_pos rfl]
    refine (arguments_phrase ended pieces _).bind fun stop values phrase => ?_
    exact .still fun _ => named.append phrase
  · rw [if_neg Bool.false_ne_true]
    refine .behind fun state => ?_
    dsimp only
    split
    · split
      · exact .still fun _ => named
      · exact .failedAt
    · split
      · exact .still fun _ => named
      · split
        · exact .still fun _ => named
        · exact .still fun _ => named

omit pieces in
/-- A literal is one token. -/
theorem addLiteral_phrase
    {start : Nat}
    (isPlain : context.Plain start)
    (value : LiteralValue)
    (ty : Ty) :
    Takes context start (fun stop _ => context.Phrase True 0 start stop) (addLiteral value ty) := by
  unfold addLiteral
  refine .behind fun place => .advancing ended isPlain.goesOn ?_
  exact .still fun _ => .token isPlain

/-- A primary expression consumes a phrase. -/
theorem primary_phrase : ReadsPhrase context (primary nested) := by
  intro start
  have literal {kind : TokenKind} (isKind : (context.token start).kind = kind)
      (isNothing : kind ≠ .endOfText) (noSymbol : ∀ symbol, kind ≠ .symbol symbol) :
      context.Plain start := by
    refine .ofKind (by rw [GoesOn, isKind]; exact isNothing) ?_
    rw [CompileContext.symbol?, Token.symbol?, isKind]
    cases kind <;> first | rfl | exact absurd rfl (noSymbol _)
  unfold primary
  refine .looking ?_
  split
  · next isKind =>
    have isPlain := literal isKind (by decide) (by simp)
    refine .behind fun value => ?_
    split <;> exact addLiteral_phrase ended isPlain _ _
  · next isKind =>
    have isPlain := literal isKind (by decide) (by simp)
    exact .behind fun value => addLiteral_phrase ended isPlain _ _
  · next isKind =>
    have isPlain := literal isKind (by decide) (by simp)
    exact .behind fun value => addLiteral_phrase ended isPlain _ _
  · next isKind => exact addLiteral_phrase ended (literal isKind (by simp) (by simp)) _ _
  · next isKind => exact identifier_phrase ended pieces isKind
  · next isKind => exact addLiteral_phrase ended (.ofSymbol (symbol_of_kind isKind) rfl) _ _
  · next isKind => exact addLiteral_phrase ended (.ofSymbol (symbol_of_kind isKind) rfl) _ _
  · next isKind => exact addLiteral_phrase ended (.ofSymbol (symbol_of_kind isKind) rfl) _ _
  · next isKind => exact addLiteral_phrase ended (.ofSymbol (symbol_of_kind isKind) rfl) _ _
  · next isKind =>
    refine .advancing ended (goesOn_of_symbol (symbol_of_kind isKind)) ?_
    refine (pieces _).bind fun stop value piece => .expecting ended fun closes => ?_
    exact .pure (.group (symbol_of_kind isKind) (piece.before closes rfl).deeper closes (by decide))
  · next isKind => exact newExpression_phrase ended pieces (symbol_of_kind isKind)
  · exact .failed
  · exact .failed

/-- What follows a point consumes a phrase. -/
theorem member_phrase (object : ExprId) : ReadsPhrase context (member nested object) := by
  intro start
  unfold member
  refine .behind fun place => .behind fun ty => .behind fun found => .behind fun id => ?_
  refine .identifying ended fun isName name => ?_
  obtain ⟨name, place⟩ := name
  have named : context.Phrase True 0 start (start + 1) := .token (.ofIdentifier isName)
  refine .lookingAt (fun _ => ?_) fun _ => ?_
  · rw [if_pos rfl]
    refine (arguments_phrase ended pieces _).bind fun stop values phrase => ?_
    exact .still fun _ => named.append phrase
  · rw [if_neg Bool.false_ne_true]
    exact .still fun _ => named

/-- What follows an opening bracket consumes an expression and the closing bracket. -/
theorem element_phrase
    (array : ExprId)
    (start : Nat) :
    Takes context start
      (fun stop _ => ∃ close, context.Phrase True 0 start close ∧
        context.symbol? close = some .closeBracket ∧ stop = close + 1)
      (element nested array) := by
  unfold element
  refine .behind fun place => .behind fun ty => .behind fun elementType => ?_
  refine (pieces _).bind fun close position piece => .behind fun _ => ?_
  dsimp only
  split
  · exact .behind fun _ => .failedAtThen
  · refine .expecting ended fun closes => ?_
    exact .still fun _ => ⟨close, piece.before closes rfl, closes, rfl⟩

/-- A primary expression with its suffixes consumes a phrase. -/
theorem suffixed_phrase : ReadsPhrase context (suffixed nested) := by
  intro start
  unfold suffixed
  refine (primary_phrase ended pieces start).bind fun position value phrase => ?_
  refine .loop (H := fun position _ => context.Phrase True 0 start position) phrase
    fun position value phrase => ?_
  refine .lookingFor ?_
  split
  · next isDot =>
    refine .advancing ended (goesOn_of_symbol isDot) ?_
    refine (member_phrase ended pieces value _).bind fun stop value suffix => ?_
    exact .pure ((phrase.append (.token (.ofSymbol isDot rfl))).append suffix)
  · next opens =>
    refine .advancing ended (goesOn_of_symbol opens) ?_
    refine (element_phrase ended pieces value _).bind fun stop value suffix => ?_
    obtain ⟨close, inner, closes, rfl⟩ := suffix
    exact .pure (phrase.append (.group opens inner.deeper closes (by decide)))
  · next isStep =>
    refine .advancing ended (goesOn_of_symbol isStep) ?_
    exact .behind fun place => .behind fun stepped =>
      .pure (phrase.append (.token (.ofSymbol isStep rfl)))
  · next isStep =>
    refine .advancing ended (goesOn_of_symbol isStep) ?_
    exact .behind fun place => .behind fun stepped =>
      .pure (phrase.append (.token (.ofSymbol isStep rfl)))
  · exact .pure phrase

/-- A suffixed expression with its prefix operators consumes a phrase. -/
theorem prefixedWithin_phrase (bound : Nat) : ReadsPhrase context (prefixedWithin nested bound) := by
  induction bound with
  | zero => exact fun _ => .failed
  | succ bound inductionHypothesis =>
      intro start
      unfold prefixedWithin
      refine .behind fun place => .lookingFor ?_
      split
      · exact suffixed_phrase ended pieces start
      · next symbol isThere =>
        split
        · next op isOperator =>
          have isPlain : symbol.bracket = .plain := by
            cases symbol <;> first | rfl | cases isOperator
          refine .advancing ended (goesOn_of_symbol isThere) ?_
          refine (inductionHypothesis _).bind fun stop operand phrase => ?_
          exact .still fun _ => (Phrase.token (.ofSymbol isThere isPlain)).append phrase
        · split
          · next isStep =>
            have isPlain : symbol.bracket = .plain := by
              simp only [Bool.or_eq_true, beq_iff_eq] at isStep
              obtain rfl | rfl := isStep <;> rfl
            refine .advancing ended (goesOn_of_symbol isThere) ?_
            refine (inductionHypothesis _).bind fun stop operand phrase => ?_
            exact .still fun _ => (Phrase.token (.ofSymbol isThere isPlain)).append phrase
          · exact suffixed_phrase ended pieces start

/-- An expression of prefix operators consumes a phrase. -/
theorem prefixed_phrase : ReadsPhrase context (prefixed nested) := by
  intro start
  unfold prefixed
  exact .behind fun count => prefixedWithin_phrase ended pieces _ start

omit pieces in
/-- What follows an operator that may be there. -/
theorem eatAny_reads
    {β : Type}
    {start : Nat}
    {ends : Nat → β → Prop}
    {operators : List Symbol}
    {next : Option Symbol → Compile β}
    (there : ∀ symbol ∈ operators, context.symbol? start = some symbol →
      Takes context (start + 1) ends (next (some symbol)))
    (missing : Takes context start ends (next none)) :
    Takes context start ends (eatAny? operators >>= next) := by
  unfold eatAny?
  rw [bind_assoc]
  refine .lookingFor ?_
  split
  · next symbol isThere =>
    split
    · next isOperator =>
      rw [bind_assoc]
      exact .advancing ended (goesOn_of_symbol isThere)
        (there symbol (List.contains_iff_mem.mp isOperator) isThere)
    · exact missing
  · exact missing

omit pieces in
/-- Operands joined by operators consume a phrase. -/
theorem joined_phrase
    {operators : List Symbol}
    {operand : Compile ExprId}
    (arePlain : ∀ symbol ∈ operators, symbol.bracket = .plain)
    (phrases : ReadsPhrase context operand) :
    ReadsPhrase context (joined operators operand) := by
  intro start
  unfold joined
  refine (phrases start).bind fun position left phrase => ?_
  refine .loop (H := fun position _ => context.Phrase True 0 start position) phrase
    fun position left phrase => ?_
  refine eatAny_reads ended (fun symbol isOperator isThere => ?_) (.pure phrase)
  refine .behind fun place => (phrases _).bind fun stop right operand => ?_
  refine .behind fun combined => .pure ?_
  exact (phrase.append (.token (.ofSymbol isThere (arePlain symbol isOperator)))).append operand

omit pieces in
/-- An expression of binary operators consumes a phrase. -/
theorem binary_phrase
    {operand : Compile ExprId}
    {levels : List (List Symbol)}
    (arePlain : ∀ operators ∈ levels, ∀ symbol ∈ operators, symbol.bracket = .plain)
    (phrases : ReadsPhrase context operand) :
    ReadsPhrase context (binary operand levels) := by
  induction levels with
  | nil => exact phrases
  | cons operators tighter inductionHypothesis =>
      obtain ⟨here, further⟩ := List.forall_mem_cons.mp arePlain
      exact joined_phrase ended here (inductionHypothesis further)

/-- A conditional expression consumes an expression. -/
theorem conditional_piece : ReadsPiece context (conditional nested) := by
  intro start
  unfold conditional
  have condition : ReadsPhrase context (binary (prefixed nested) levels) :=
    binary_phrase ended (by decide) (prefixed_phrase ended pieces)
  refine (condition start).bind fun position condition phrase => ?_
  refine .eating ended (fun isThere => ?_) fun _ => ?_
  · rw [Bool.not_true, if_neg Bool.false_ne_true]
    refine .behind fun ty => ?_
    dsimp only
    split
    · exact .behind fun place => .failedAtThen
    · refine (pieces _).bind fun middle whenTrue truePiece => ?_
      refine .expecting ended fun isColon => ?_
      refine (pieces _).bind fun stop whenFalse falsePiece => ?_
      refine .still fun _ => falsePiece.after ?_
      have first := phrase.append (.token (.ofSymbol isThere rfl))
      exact (first.append (truePiece.before isColon rfl)).append (.token (.ofSymbol isColon rfl))
  · rw [Bool.not_false, if_pos rfl]
    exact .pure (.ofPhrase phrase)

omit ended in
/-- An expression whose value fits a type consumes an expression. -/
theorem fitting_piece (ty : Ty) : ReadsPiece context (fitting nested ty) := by
  intro start
  unfold fitting
  refine (pieces start).bind fun stop value piece => ?_
  exact .still fun _ => piece

/-- A value that is stored consumes an expression, which may be a list in braces. -/
theorem initializer_piece (ty : Ty) : ReadsPiece context (initializer nested ty) := by
  induction ty with
  | array elementType inductionHypothesis =>
      intro start
      unfold initializer
      refine .lookingAt (fun opens => ?_) fun _ => ?_
      · rw [if_pos rfl]
        refine .behind fun place => .advancing ended (goesOn_of_symbol opens) ?_
        refine .eating ended (fun closes => ?_) fun _ => ?_
        · rw [if_pos rfl]
          exact .still fun _ bounded isBounded => .list opens .empty closes isBounded
        · rw [if_neg Bool.false_ne_true]
          refine Takes.bind (M := fun stop _ => context.Piece start stop) ?_
            fun stop items piece => .still fun _ => piece
          refine .loop
            (H := fun position _ => context.Phrase True 1 (start + 1) position) .empty
            fun position items inner => ?_
          refine (inductionHypothesis position).bind fun stop value piece => ?_
          refine .eating ended (fun closes => ?_) fun _ => ?_
          · refine .pure fun bounded isBounded => ?_
            exact .list opens (inner.append (piece.before closes rfl).deeper) closes isBounded
          · refine .expecting ended fun isComma => ?_
            exact .pure ((inner.append (piece.before isComma rfl).deeper).append (.comma isComma))
      · rw [if_neg Bool.false_ne_true]
        exact fitting_piece pieces _ start
  | _ =>
      unfold initializer
      exact fitting_piece pieces _

/-- An assignment consumes an expression. -/
theorem assignment_piece : ReadsPiece context (assignment nested) := by
  intro start
  unfold assignment
  refine (conditional_piece ended pieces start).bind fun position target piece => ?_
  refine .lookingFor ?_
  split
  · exact .pure piece
  · next symbol isFound =>
    obtain ⟨isThere, isAssignment⟩ := Option.filter_eq_some_iff.mp isFound
    have isPlain : symbol.bracket = .plain := by
      cases symbol <;> first | rfl | cases isAssignment
    have isOther : symbol.begins = false := by
      cases symbol <;> first | rfl | cases isAssignment
    have assigned := (piece.before isThere isOther).append (.token (.ofSymbol isThere isPlain))
    refine .behind fun place => .behind fun tree => ?_
    dsimp only
    split
    · exact .failedAtThen
    · refine .advancing ended (goesOn_of_symbol isThere) ?_
      split
      · refine (initializer_piece ended pieces _ _).bind fun stop value piece => ?_
        exact .still fun _ => piece.after assigned
      · refine (pieces _).bind fun stop value piece => ?_
        exact .still fun _ => piece.after assigned

end Nested

/-- An expression consumes the tokens of one. -/
theorem expression_piece (ended : context.Ended) : ReadsPiece context expression := by
  have within (bound : Nat) : ReadsPiece context (expressionWithin bound) := by
    induction bound with
    | zero => exact fun _ => .failed
    | succ bound inductionHypothesis => exact assignment_piece ended inductionHypothesis
  intro start
  unfold expression
  exact .behind fun count => within _ start

/-! ## Types -/

/-- The empty brackets behind a type consume a phrase. -/
theorem arraySuffixes_phrase (ended : context.Ended) (ty : Ty) :
    ReadsPhrase context (arraySuffixes ty) := by
  intro start
  unfold arraySuffixes
  refine .loop (H := fun position _ => context.Phrase True 0 start position) .empty
    fun position ty phrase => ?_
  refine .eating ended (fun opens => ?_) fun _ => ?_
  · rw [if_pos rfl]
    refine .expecting ended fun closes => .pure ?_
    exact phrase.append (.group opens .empty closes (by decide))
  · rw [if_neg Bool.false_ne_true]
    exact .pure phrase

/-- A type consumes a phrase, whose first token may begin a declaration. -/
theorem parseType_phrase (ended : context.Ended) (start : Nat) :
    Takes context start
      (fun stop _ => context.begins start = true ∧ context.Phrase True 0 start stop)
      parseType := by
  have suffixes (isPlain : context.Plain start) (begins : context.begins start = true) (base : Ty) :
      Takes context start
        (fun stop _ => context.begins start = true ∧ context.Phrase True 0 start stop)
        (do
          advance
          arraySuffixes base) :=
    .advancing ended isPlain.goesOn
      ((arraySuffixes_phrase ended base _).weaken fun stop _ phrase =>
        ⟨begins, (Phrase.token isPlain).append phrase⟩)
  unfold parseType
  refine .looking ?_
  dsimp only
  split
  · next symbol isKind =>
    have isThere := symbol_of_kind isKind
    refine .behind fun place => .requiring fun base isType => ?_
    have isPlain : symbol.bracket = .plain := by cases symbol <;> first | rfl | cases isType
    have begins : symbol.begins = true := by cases symbol <;> first | rfl | cases isType
    exact suffixes (.ofSymbol isThere isPlain) ((begins_of_symbol isThere).trans begins) base
  · next isKind =>
    have begins : context.begins start = true := by simp [CompileContext.begins, isKind]
    refine .behind fun name => .behind fun found => .behind fun place => .behind fun id => ?_
    exact .behind fun tree => suffixes (.ofIdentifier isKind) begins _
  · exact .failedThen

end Compile

end BotScript
