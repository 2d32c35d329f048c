import BotScript.Proofs.BracedStatements

namespace BotScript

/-!
# Where items end

The first two passes skip bodies and initial values; the last one compiles them from
where they start.  It ends each of them where it has been skipped to, and the items
that the first pass finds leave no token out.
-/

namespace CompileContext

variable {context : CompileContext} {start stop body : Nat}

/-- The modifiers of a declaration end at a position. -/
structure Modified (context : CompileContext) (start stop : Nat) : Prop where
  le : start ≤ stop
  modifiers :
    ∀ position, start ≤ position → position < stop →
      ∃ symbol, context.symbol? position = some symbol ∧ symbol.isModifier = true
  ends : ∀ symbol, context.symbol? stop = some symbol → symbol.isModifier = false

/-- Modifiers are a phrase. -/
theorem Modified.phrase
    (modified : context.Modified start stop) :
    context.Phrase True 0 start stop := by
  obtain ⟨le, modifiers, -⟩ := modified
  induction stop, le using Nat.le_induction with
  | base => exact .empty
  | succ stop le inductionHypothesis =>
      obtain ⟨symbol, isThere, isModifier⟩ := modifiers stop le (Nat.lt_succ_self _)
      have isPlain : symbol.bracket = .plain := by
        cases symbol <;> first | rfl | cases isModifier
      refine (inductionHypothesis fun position isLe isLt => ?_).append
        (.token (.ofSymbol isThere isPlain))
      exact modifiers position isLe (Nat.lt_succ_of_lt isLt)

/-- A declaration begins where its modifiers do. -/
theorem Modified.begins
    (modified : context.Modified start stop)
    (begins : context.begins stop = true) :
    context.begins start = true := by
  obtain isLess | rfl := Nat.lt_or_eq_of_le modified.le
  · obtain ⟨symbol, isThere, isModifier⟩ := modified.modifiers start (Nat.le_refl _) isLess
    rw [begins_of_symbol isThere, Symbol.begins, isModifier]
    rfl
  · exact begins

/-- An item reaches from its first token to the end of its first group in braces. -/
structure Spans (context : CompileContext) (start body stop : Nat) : Prop where
  le : start ≤ body
  free : context.Free start body
  opens : context.symbol? body = some .openBlock
  skips : Compile.Crosses context Compile.skipBlock () body stop

/-- A function that has been declared: a header, which may be its first tokens, and a body. -/
structure Headed (context : CompileContext) (start body stop : Nat) : Prop where
  begins : context.begins start = true
  header : context.Phrase True 0 start body
  opens : context.symbol? body = some .openBlock
  skips : Compile.Crosses context Compile.skipBlock () body stop

/-- The initial value of a field: an expression up to a comma or a semicolon. -/
structure Settled (context : CompileContext) (start stop : Nat) : Prop where
  piece : context.Piece start stop
  bars : context.bracket Symbol.bracket stop = .bars

end CompileContext

namespace Compile

open CompileContext

variable {α β σ : Type} {context : CompileContext} {start stop : Nat} {symbol : Symbol}

namespace Takes

variable {ends : Nat → β → Prop}

/-- Every step ends somewhere. -/
theorem anywhere
    {step : Compile β} :
    Takes context start (fun _ _ => True) step :=
  fun _ _ _ _ _ => trivial

/-- A change of the result. -/
theorem map
    {M : Nat → α → Prop}
    {change : α → β}
    {step : Compile α}
    (reads : Takes context start M step)
    (holds : ∀ stop value, M stop value → ends stop (change value)) :
    Takes context start ends (change <$> step) := by
  rw [map_eq_pure_bind]
  exact reads.bind fun stop value meets => pure (holds stop value meets)

/-- What follows a step to another position. -/
theorem moving
    {target : Nat}
    {next : Unit → Compile β}
    (rest : Takes context target ends (next ())) :
    Takes context start ends (moveTo target >>= next) := by
  intro state result after _ runs
  exact rest { state with position := target } result after rfl runs

/-- What follows a look at the state. -/
theorem getting
    {next : CompileState → Compile β}
    (rest : ∀ state, state.position = start → Takes context start ends (next state)) :
    Takes context start ends (get >>= next) := by
  intro state result after starts runs
  exact rest state starts state result after starts runs

/-- What follows a look for one of several symbols. -/
theorem lookingAtAny
    {symbols : List Symbol}
    {next : Bool → Compile β}
    (there : ∀ symbol, context.symbol? start = some symbol → symbol ∈ symbols →
      Takes context start ends (next true))
    (missing : Takes context start ends (next false)) :
    Takes context start ends (atAny symbols >>= next) := by
  unfold atAny
  rw [bind_assoc]
  refine .lookingFor ?_
  split
  · next symbol isThere =>
    rw [pure_bind]
    cases isMember : symbols.contains symbol with
    | true => exact there symbol isThere (List.contains_iff_mem.mp isMember)
    | false => exact missing
  · exact missing

/-- What follows a look for the end of the text. -/
theorem ending
    {next : Bool → Compile β}
    (isEnd : (context.token start).kind = .endOfText → Takes context start ends (next true))
    (goesOn : context.GoesOn start → Takes context start ends (next false)) :
    Takes context start ends (atEnd >>= next) := by
  unfold atEnd
  rw [bind_assoc]
  refine .looking ?_
  rw [pure_bind]
  cases isThere : (context.token start).kind == .endOfText with
  | true => exact isEnd (eq_of_beq isThere)
  | false => exact goesOn (beq_eq_false_iff_ne.mp isThere)

/-- What follows a step that is known to succeed. -/
theorem crossing
    {step : Compile α}
    {value : α}
    {next : α → Compile β}
    (crosses : Crosses context step value start stop)
    (rest : Takes context stop ends (next value)) :
    Takes context start ends (step >>= next) := by
  intro state result after starts runs
  rw [bind_eq (crosses state starts)] at runs
  exact rest _ _ _ rfl runs

/-- What follows a group in braces that is skipped. -/
theorem skipping
    {next : Unit → Compile β}
    (ended : context.Ended)
    (opens : context.symbol? start = some .openBlock)
    (rest : ∀ close, context.Even Symbol.brace (start + 1) close →
      context.symbol? close = some .closeBlock → Takes context (close + 1) ends (next ())) :
    Takes context start ends (skipBlock >>= next) := by
  rintro state result after rfl runs
  obtain ⟨_, between, skipped, runs⟩ := bind_ok runs
  obtain ⟨close, even, closes, isBetween⟩ :=
    skipBlock_ok ended (bracket_of_symbol opens) skipped
  exact rest close even (symbol_of_closes closes) _ _ _ isBetween runs

end Takes

/-! ## Bodies and initial values -/

variable (ended : context.Ended)

include ended

/-- The body of a function ends where it is skipped to. -/
theorem compileBody_ends
    {pending : PendingBody}
    {state after : CompileState}
    (runs : compileBody pending context state = .ok ((), after)) :
    Crosses context skipBlock () pending.body after.position := by
  have reads :
      Takes context state.position
        (fun stop _ => ∃ close, context.symbol? pending.body = some .openBlock ∧
          context.Even Symbol.brace (pending.body + 1) close ∧
          context.symbol? close = some .closeBlock ∧ stop = close + 1)
        (compileBody pending) := by
    unfold compileBody
    refine .behind fun tree => .behind fun _ => .behind fun _ => .moving ?_
    refine (Balances.functionBlock_reads ended _).bind fun stop body block => ?_
    refine .behind fun state => .behind fun _ => .behind fun tree => ?_
    dsimp only
    split
    · exact .failedAtThen
    · exact .still fun _ => block
  obtain ⟨close, opens, even, closes, isAfter⟩ := reads _ _ _ rfl runs
  rw [isAfter]
  exact skipBlock_crosses ended (bracket_of_symbol opens) even (bracket_of_symbol closes)

/-- The initial value of a field ends at a comma or a semicolon. -/
theorem compileInitial_settled
    {initial : PendingInitial}
    {state after : CompileState}
    (runs : compileInitial initial context state = .ok ((), after)) :
    context.Settled initial.position after.position := by
  have reads :
      Takes context state.position (fun stop _ => context.Settled initial.position stop)
        (compileInitial initial) := by
    unfold compileInitial
    refine .behind fun tree => .moving (.behind fun _ => ?_)
    refine (initializer_piece ended (expression_piece ended) _ _).bind fun stop value piece => ?_
    refine .behind fun _ => .lookingAtAny (fun symbol isThere isEnd => ?_) ?_
    · rw [Bool.not_true, if_neg Bool.false_ne_true]
      have bars : symbol.bracket = .bars := by
        simp only [List.mem_cons, List.not_mem_nil, or_false] at isEnd
        obtain rfl | rfl := isEnd <;> rfl
      dsimp only
      exact .still fun _ => ⟨piece, (bracket_of_symbol isThere).trans bars⟩
    · rw [Bool.not_false, if_pos rfl]
      exact .failedThen
  exact reads _ _ _ rfl runs

/-- An initial value ends where it is skipped to. -/
theorem skipInitializer_settled
    (settled : context.Settled start stop) :
    Crosses context skipInitializer () start stop :=
  skipInitializer_crosses ended (settled.piece False False.elim).groups settled.bars

/-! ## Signatures -/

/-- Modifiers are consumed up to what is none. -/
theorem parseModifiers_reads
    (start : Nat) :
    Takes context start (fun stop _ => context.Modified start stop) parseModifiers := by
  unfold parseModifiers
  refine .loop
    (H := fun position _ => start ≤ position ∧ ∀ other, start ≤ other → other < position →
      ∃ symbol, context.symbol? other = some symbol ∧ symbol.isModifier = true)
    ⟨Nat.le_refl _, fun _ le lt => absurd lt (Nat.not_lt.mpr le)⟩ ?_
  rintro position modifiers ⟨le, before⟩
  refine .lookingFor ?_
  split
  · next symbol isThere =>
    split
    · next isModifier =>
      refine .advancing ended (goesOn_of_symbol isThere) (.pure ⟨by omega, fun other le lt => ?_⟩)
      by_cases isLast : other = position
      · exact ⟨symbol, isLast ▸ isThere, isModifier⟩
      · exact before other le (by omega)
    · next isOther =>
      refine .pure ⟨le, before, fun other isSymbol => ?_⟩
      cases isThere.symm.trans isSymbol
      simpa using isOther
  · next isMissing => exact .pure ⟨le, before, fun symbol isThere => by simp [isMissing] at isThere⟩

/-- The default of a parameter consumes an expression. -/
theorem parameterDefault_piece
    (ty : Ty) :
    ReadsPiece context (parameterDefault ty) := by
  intro start
  unfold parameterDefault
  refine .behind fun isMissing => ?_
  dsimp only
  split
  · exact .failedThen
  · refine .behind fun _ => (expression_piece ended start).bind fun stop value piece => ?_
    refine .behind fun _ => .behind fun place => .behind fun source => .behind fun tree => ?_
    split
    · exact .failedAtThen
    · exact .still fun _ => piece

/-- The parameters of a function end with the parenthesis that closes them. -/
theorem parameters_reads
    (start : Nat) :
    Takes context start
      (fun stop _ => ∃ close, context.Phrase True 1 start close ∧
        context.symbol? close = some .closePar ∧ stop = close + 1)
      parameters := by
  unfold parameters
  refine .eating ended (fun closes => ?_) fun _ => ?_
  · rw [if_pos rfl]
    exact .pure ⟨start, .empty, closes, rfl⟩
  rw [if_neg Bool.false_ne_true]
  refine .loop (H := fun position _ => context.Phrase True 1 start position) .empty
    fun position params before => ?_
  refine .behind fun place => (parseType_phrase ended position).bind fun middle base read => ?_
  have before := before.append read.2.deeper
  dsimp only
  split
  · exact .failedAtThen
  refine .naming ended fun isName name => ?_
  have before := before.append (.token (.ofIdentifier isName))
  obtain ⟨name, place⟩ := name
  refine (arraySuffixes_phrase ended base _).bind fun middle ty suffixes => ?_
  have before := before.append suffixes.deeper
  split
  · exact .failedAtThen
  have closing (stop : Nat) (params : List Param)
      (read : context.begins stop = false → context.Phrase True 1 start stop) :
      Takes context stop
        (Takes.Meets (fun position _ => context.Phrase True 1 start position)
          fun stop _ => ∃ close, context.Phrase True 1 start close ∧
            context.symbol? close = some .closePar ∧ stop = close + 1)
        (do
          if ← eat .closePar then return (Turn.done params : Turn (List Param) (List Param))
          expect .comma .closePar
          return .again params) := by
    refine .eating ended (fun closes => ?_) fun _ => ?_
    · exact .pure ⟨stop, read (begins_of_symbol closes), closes, rfl⟩
    · refine .expecting ended fun isComma => .pure ?_
      exact (read (begins_of_symbol isComma)).append (.comma isComma)
  refine .eating ended (fun isAssign => ?_) fun _ => ?_
  · rw [if_pos rfl]
    have before := before.append (.token (.ofSymbol isAssign rfl))
    refine Takes.bind (M := fun stop _ => context.Piece _ stop)
      ((parameterDefault_piece ended ty _).map fun stop value piece => piece) ?_
    exact fun stop value piece => closing stop _ fun isOther =>
      before.append (piece.whole isOther).deeper
  · rw [if_neg Bool.false_ne_true]
    split
    · exact .failedAtThen
    · exact closing _ _ fun _ => before

/-- A signature consumes a phrase. -/
theorem declareSignature_phrase
    (modifiers : Modifiers)
    (result : Ty)
    (owner : Option ClassId)
    (name : String)
    (place : Span) :
    ReadsPhrase context (declareSignature modifiers result owner name place) := by
  intro start
  unfold declareSignature
  refine .expecting ended fun opens => ?_
  refine (parameters_reads ended _).bind ?_
  rintro _ params ⟨close, inner, closes, rfl⟩
  refine .behind fun tree => ?_
  have declared : context.Phrase True 0 start (close + 1) :=
    .group opens inner closes (by decide)
  dsimp only
  split
  · exact .failedAtThen
  · refine .behind fun _ => ?_
    split
    · split
      · exact .still fun _ => declared
      · exact .still fun _ => declared
    · exact .pure declared

/-- The body of a function is skipped up to the brace that closes it. -/
theorem skipBody_reads
    (start : Nat) :
    Takes context start
      (fun stop position => position = start ∧ context.symbol? start = some .openBlock ∧
        ∃ close, context.Even Symbol.brace (start + 1) close ∧
          context.symbol? close = some .closeBlock ∧ stop = close + 1)
      skipBody := by
  unfold skipBody
  refine .lookingAt (fun opens => ?_) fun _ => ?_
  · rw [Bool.not_true, if_neg Bool.false_ne_true]
    refine .getting fun state starts => .skipping ended opens fun close even closes => ?_
    exact .pure ⟨starts, opens, close, even, closes, rfl⟩
  · rw [Bool.not_false, if_pos rfl]
    exact .failedThen

/-- A function that is declared has a header and a body. -/
theorem declareFunction_headed
    (first : Nat)
    (start : Nat) :
    Takes context start (fun stop pending => context.Headed first pending.body stop)
      (declareFunction first) := by
  unfold declareFunction
  refine .moving ((parseModifiers_reads ended first).bind fun middle modifiers modified => ?_)
  refine (parseType_phrase ended middle).bind fun stop result read => ?_
  have begins := modified.begins read.1
  have header := modified.phrase.append read.2
  have rest (stop : Nat) (header : context.Phrase True 0 first stop)
      (named : Option ClassId × String × Span) :
      Takes context stop (fun stop pending => context.Headed first pending.body stop)
        (do
          if !(← at' .openPar) then fail .openPar
          let function ← declareSignature modifiers result named.1 named.2.1 named.2.2
          return (⟨function, ← skipBody⟩ : PendingBody)) := by
    refine .lookingAt (fun _ => ?_) fun _ => ?_
    · rw [Bool.not_true, if_neg Bool.false_ne_true]
      refine (declareSignature_phrase ended _ _ _ _ _ _).bind fun body function signature => ?_
      refine (skipBody_reads ended body).bind ?_
      rintro _ _ ⟨rfl, opens, close, even, closes, rfl⟩
      exact .pure ⟨begins, header.append signature, opens,
        skipBlock_crosses ended (bracket_of_symbol opens) even (bracket_of_symbol closes)⟩
    · exact .failedThen
  refine .naming ended fun isName name => ?_
  have header := header.append (.token (.ofIdentifier isName))
  obtain ⟨name, place⟩ := name
  refine .eating ended (fun isMember => ?_) fun _ => ?_
  · have header := header.append (.token (.ofSymbol isMember rfl))
    refine .behind fun current => .requiring fun owner isOwner => ?_
    refine .naming ended fun isName name => ?_
    exact rest _ (header.append (.token (.ofIdentifier isName))) (some owner, name)
  · exact rest _ header (none, name, place)

/-! ## Members -/

omit ended in
/-- Every initial value that waits for the last pass is one. -/
def AllSettled (context : CompileContext) (initials : List PendingInitial) : Prop :=
  ∀ initial ∈ initials, ∃ stop, context.Settled initial.position stop

/-- What follows an initial value that is skipped, if it is one. -/
theorem Takes.skippingInitial
    {ends : Nat → β → Prop}
    {next : Unit → Compile β}
    (settled : ∀ stop, context.Settled start stop → Takes context stop ends (next ()))
    (unsettled : (¬∃ stop, context.Settled start stop) → ∀ stop, Takes context stop ends (next ())) :
    Takes context start ends (skipInitializer >>= next) := by
  by_cases isSettled : ∃ stop, context.Settled start stop
  · obtain ⟨stop, isSettled⟩ := isSettled
    exact .crossing (skipInitializer_settled ended isSettled) (settled stop isSettled)
  · exact Takes.anywhere.bind fun stop _ _ => unsettled isSettled stop

/-- Fields have their braces in pairs, provided that their initial values are such. -/
theorem declareFields_reads
    (owner : ClassId)
    (modifiers : Modifiers)
    (base : Ty)
    (first : String × Span)
    (start : Nat) :
    Takes context start
      (fun stop initials => AllSettled context initials → context.Even Symbol.brace start stop)
      (declareFields owner modifiers base first) := by
  unfold declareFields
  dsimp only
  split
  · exact .failedAtThen
  refine Takes.bind
    (M := fun stop initials =>
      AllSettled context initials → context.Even Symbol.brace start stop) ?_
    fun stop initials even => ?_
  · refine .loop
      (H := fun position (next : (String × Span) × List PendingInitial) =>
        AllSettled context next.2 → context.Even Symbol.brace start position)
      (fun _ => .refl) ?_
    rintro position ⟨⟨name, place⟩, initials⟩ even
    have going (stop : Nat) (initials : List PendingInitial)
        (even : AllSettled context initials → context.Even Symbol.brace start stop) :
        Takes context stop
          (Takes.Meets (fun position (next : (String × Span) × List PendingInitial) =>
              AllSettled context next.2 → context.Even Symbol.brace start position)
            fun stop initials =>
              AllSettled context initials → context.Even Symbol.brace start stop)
          (do
            if ← eat .comma then
              return (Turn.again (← expectName .noVariable, initials)
                : Turn ((String × Span) × List PendingInitial) (List PendingInitial))
            else return .done initials) := by
      refine .eating ended (fun isComma => ?_) fun _ => .pure even
      refine .naming ended fun isName name => .pure fun settled => ?_
      have named := Plain.even (.ofIdentifier isName)
      exact ((even settled).trans (even_token isComma)).trans named
    refine (Balances.reads (declaredType base) ended position).bind fun middle declared limits => ?_
    have even (settled : AllSettled context initials) :
        context.Even Symbol.brace start middle :=
      (even settled).trans limits
    obtain ⟨ty, limits⟩ := declared
    refine .behind fun tree => ?_
    dsimp only
    split
    · exact .failedAtThen
    refine .behind fun _ => .eating ended (fun isAssign => ?_) fun _ => ?_
    · rw [if_pos rfl]
      refine .getting fun state starts => ?_
      have earlier {initial : PendingInitial}
          (settled : AllSettled context (initials ++ [initial])) :
          AllSettled context initials :=
        fun other isThere => settled other (List.mem_append_left _ isThere)
      refine .skippingInitial ended (fun stop isSettled => ?_) fun unsettled stop => ?_
      · exact going stop _ fun settled =>
          ((even (earlier settled)).trans (even_token isAssign)).trans
            (isSettled.piece False False.elim).braces
      · refine going stop _ fun settled => absurd ?_ unsettled
        rw [← starts]
        exact settled _ (List.mem_append_right _ (List.mem_singleton_self _))
    · rw [if_neg Bool.false_ne_true]
      exact going middle initials even
  · refine .expecting ended fun isSemicolon => .pure fun settled => ?_
    exact (even settled).trans (even_token isSemicolon)

/-- The members of a class end with the brace that closes it, if their initial values are such. -/
theorem declareMembers_reads
    (item : ClassItem)
    (pending : Pending)
    (opens : context.symbol? item.body = some .openBlock)
    (start : Nat) :
    Takes context start
      (fun stop next => pending.initials ⊆ next.initials ∧
        (AllSettled context next.initials → Crosses context skipBlock () item.body stop))
      (declareMembers item pending) := by
  unfold declareMembers
  refine .behind fun tree => .moving (.advancing ended (goesOn_of_symbol opens) ?_)
  refine .loop
    (H := fun position (next : Pending) => pending.initials ⊆ next.initials ∧
      (AllSettled context next.initials →
        context.Even Symbol.brace (item.body + 1) position))
    ⟨List.Subset.refl _, fun _ => .refl⟩ ?_
  rintro position current ⟨more, even⟩
  refine .eating ended (fun closes => ?_) fun _ => ?_
  · rw [if_pos rfl]
    exact .pure ⟨more, fun settled =>
      skipBlock_crosses ended (bracket_of_symbol opens) (even settled) (bracket_of_symbol closes)⟩
  rw [if_neg Bool.false_ne_true]
  refine .behind fun isEnd => ?_
  dsimp only
  split
  · exact .failedThen
  refine (parseModifiers_reads ended position).bind fun middle modifiers modified => ?_
  have even (settled : AllSettled context current.initials) :
      context.Even Symbol.brace (item.body + 1) middle :=
    (even settled).trans modified.phrase.braces
  refine .behind fun name => .behind fun kind => ?_
  -- A constructor has no type in front of its name.
  split
  all_goals
    refine Takes.bind (M := fun stop _ => context.Even Symbol.brace middle stop)
      (Balances.reads _ ended middle) fun stop ty typed => ?_
    refine .naming ended fun isName name => ?_
    have named := Plain.even (.ofIdentifier isName)
    have even (settled : AllSettled context current.initials) :
        context.Even Symbol.brace (item.body + 1) (stop + 1) :=
      ((even settled).trans typed).trans named
    obtain ⟨name, place⟩ := name
    refine .lookingAt (fun isMethod => ?_) fun _ => ?_
    · rw [if_pos rfl]
      refine (declareSignature_phrase ended _ _ _ _ _ _).bind fun body function signature => ?_
      refine (skipBody_reads ended body).bind ?_
      rintro _ _ ⟨rfl, opens, close, inner, closes, rfl⟩
      refine .pure ⟨more, fun settled => ?_⟩
      exact ((even settled).trans signature.braces).trans (even_group opens inner closes)
    · rw [if_neg Bool.false_ne_true]
      refine (declareFields_reads ended _ _ _ _ _).bind fun stop initials fields => ?_
      refine .pure ⟨fun initial isThere => List.mem_append_left _ (more isThere), fun settled => ?_⟩
      have earlier := even fun initial isThere => settled initial (List.mem_append_left _ isThere)
      exact earlier.trans
        (fields fun initial isThere => settled initial (List.mem_append_right _ isThere))

end Compile

end BotScript
