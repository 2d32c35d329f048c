import BotScript.Proofs.ItemBoundaries
import BotScript.Proofs.WellFormedTrees
import Mathlib.Data.Nat.Find

namespace BotScript

/-!
# Items that are found

The first pass looks for the braces of items before it knows what a header is.  A
header may itself have a list in braces, which is taken for a body; what follows
such a list begins no item, so that the second pass refuses the program.  In an
accepted program the items that are found cover all tokens.
-/

namespace CompileContext

variable {context : CompileContext} {position start stop body : Nat}

/-- What a header goes on over is no brace. -/
theorem brace_of_header
    (isPlain : context.bracket Symbol.header position = .plain) :
    context.bracket Symbol.brace position = .plain := by
  cases isThere : context.symbol? position with
  | none => exact bracket_of_none isThere
  | some symbol =>
      rw [bracket_of_symbol isThere] at isPlain ⊢
      cases symbol <;> first | rfl | cases isPlain

/-- The first brace of a range in which all braces are paired opens a group of the range. -/
theorem Climbs.first_brace
    {first last : Nat × Nat}
    (climbs : context.Climbs Symbol.brace first last)
    (outside : first.2 = 0)
    (isEven : last.2 = 0)
    (le : first.1 ≤ position)
    (lt : position < last.1)
    (free : ∀ other, first.1 ≤ other → other < position →
      context.bracket Symbol.brace other = .plain)
    (isBrace : context.bracket Symbol.brace position ≠ .plain) :
    ∃ close, context.symbol? position = some .openBlock ∧
      context.Even Symbol.brace (position + 1) close ∧
      context.symbol? close = some .closeBlock ∧ close < last.1 := by
  induction climbs using Relation.ReflTransGen.head_induction_on with
  | refl => omega
  | head climb rest inductionHypothesis =>
      cases climb with
      | @opens here depth opens =>
          obtain rfl : here = position := by
            refine Nat.le_antisymm le (Nat.not_lt.mp fun isLater => ?_)
            cases opens.symm.trans (free here (Nat.le_refl _) isLater)
          have deep : depth + 1 = last.2 + 1 + 0 := by
            dsimp only at outside
            omega
          obtain ⟨close, even, closes, further⟩ := Climbs.closing rest deep (Nat.le_refl _)
          exact ⟨close, symbol_of_opens opens, even, symbol_of_closes closes, (Climbs.goesOn further).1⟩
      | closes _ => cases outside
      | inner _ => cases outside
      | @plain here depth _ isPlain =>
          have isLater : here + 1 ≤ position := by
            refine Nat.lt_of_le_of_ne le ?_
            rintro rfl
            exact isBrace isPlain
          exact inductionHypothesis outside isLater fun other isAfter =>
            free other (Nat.le_trans (Nat.le_succ here) isAfter)

/--
The items of an outline cover the tokens up to a position: each starts where the one
before it ends, and a class is told by its keyword behind its modifiers.
-/
inductive Tiles (context : CompileContext) : Compile.Outline → Nat → Prop where
  | nothing : Tiles context {} 0
  | ofClass
      {outline : Compile.Outline}
      {start keyword stop : Nat}
      {item : Compile.ClassItem} :
      Tiles context outline start →
      context.Modified start keyword →
      context.symbol? keyword = some .classKw →
      context.Spans start item.body stop →
      Tiles context { outline with classes := outline.classes ++ [item] } stop
  | ofFunction
      {outline : Compile.Outline}
      {start keyword body stop : Nat} :
      Tiles context outline start →
      context.Modified start keyword →
      context.symbol? keyword ≠ some .classKw →
      context.Spans start body stop →
      Tiles context { outline with functions := outline.functions ++ [start] } stop

/-- The scan has come to something that begins no item, inside of a header. -/
structure Stuck (context : CompileContext) (position : Nat) : Prop where
  goesOn : context.GoesOn position
  noItem : context.begins position = false

/-- The first token of a declaration is a modifier where it has one. -/
theorem Modified.eq_of_begins
    {keyword : Nat}
    (modified : context.Modified start keyword)
    (noItem : context.begins start = false) :
    keyword = start := by
  refine (Nat.eq_or_lt_of_le modified.le).elim Eq.symm fun isLess => ?_
  obtain ⟨symbol, isThere, isModifier⟩ := modified.modifiers start (Nat.le_refl _) isLess
  rw [begins_of_symbol isThere, Symbol.begins, isModifier] at noItem
  cases noItem

/-- Modifiers are free of what ends a header. -/
theorem Modified.free
    {keyword : Nat}
    (modified : context.Modified start keyword) :
    context.Free start keyword := by
  intro position le lt
  obtain ⟨symbol, isThere, isModifier⟩ := modified.modifiers position le lt
  refine ⟨goesOn_of_symbol isThere, ?_⟩
  rw [bracket_of_symbol isThere]
  cases symbol <;> first | rfl | cases isModifier

/-- A token that is neither a bracket nor a separator is free of what ends a header. -/
theorem Plain.free
    (isPlain : context.Plain position) :
    context.Free position (position + 1) := by
  intro other le lt
  obtain rfl : other = position := by omega
  refine ⟨isPlain.goesOn, ?_⟩
  cases isThere : context.symbol? other with
  | none => exact bracket_of_none isThere
  | some symbol =>
      have isPlain := (bracket_of_symbol isThere).symm.trans isPlain.isPlain
      rw [bracket_of_symbol isThere]
      cases symbol <;> first | rfl | cases isPlain

/-- Ranges of a header that follow each other. -/
theorem Free.append
    {middle : Nat}
    (first : context.Free start middle)
    (second : context.Free middle stop) :
    context.Free start stop := by
  intro position le lt
  by_cases isFirst : position < middle
  · exact first position le isFirst
  · exact second position (Nat.not_lt.mp isFirst) lt

/-- A header ends at its body, or it has a list in braces behind which no item begins. -/
theorem Headed.first_group
    (ended : context.Ended)
    {keyword : Nat}
    (headed : context.Headed start body stop)
    (modified : context.Modified start keyword) :
    ∃ first last,
      keyword ≤ first ∧ context.Free start first ∧
        context.symbol? first = some .openBlock ∧
        Compile.Crosses context Compile.skipBlock () first last ∧
        (first = body ∧ last = stop ∨ context.Stuck last) := by
  obtain ⟨le, goesOn⟩ := headed.header.groups.goesOn
  have isBody : context.bracket Symbol.header body ≠ .plain := by
    rw [bracket_of_symbol headed.opens]
    decide
  have inside : keyword ≤ body := by
    refine Nat.not_lt.mp fun isBefore => ?_
    obtain ⟨symbol, isThere, isModifier⟩ := modified.modifiers body le isBefore
    cases headed.opens.symm.trans isThere
    cases isModifier
  -- What the scan stops at is the first such token behind the modifiers.
  have stopping : ∃ first, keyword ≤ first ∧ context.bracket Symbol.header first ≠ .plain :=
    ⟨body, inside, isBody⟩
  classical
  let first := Nat.find stopping
  obtain ⟨isBehind, isEnd⟩ : keyword ≤ first ∧ context.bracket Symbol.header first ≠ .plain :=
    Nat.find_spec stopping
  have isFirst : first ≤ body := Nat.find_min' stopping ⟨inside, isBody⟩
  have free : context.Free start first := by
    refine modified.free.append fun position isAfter isBefore => ⟨?_, ?_⟩
    · exact goesOn position (Nat.le_trans modified.le isAfter) (Nat.lt_of_lt_of_le isBefore isFirst)
    · by_contra isOther
      exact Nat.find_min stopping isBefore ⟨isAfter, isOther⟩
  obtain isBody | isInner := Nat.eq_or_lt_of_le isFirst
  · exact ⟨first, stop, isBehind, free, isBody ▸ headed.opens, isBody ▸ headed.skips,
      .inl ⟨isBody, rfl⟩⟩
  have le : start ≤ first := Nat.le_trans modified.le isBehind
  have isBrace : context.bracket Symbol.brace first ≠ .plain := by
    obtain ⟨symbol, isThere, isHeader⟩ := symbol_of_bracket rfl isEnd
    rw [bracket_of_symbol isThere] at isEnd ⊢
    have noSemicolon := headed.header.noSemicolon first le isInner
    rw [isThere] at noSemicolon
    cases symbol <;> first | decide | exact absurd rfl isEnd | exact absurd rfl noSemicolon
  obtain ⟨close, opens, even, closes, isClose⟩ :=
    headed.header.braces.first_brace rfl rfl le isInner
      (fun other isAfter isBefore => brace_of_header (free other isAfter isBefore).2) isBrace
  refine ⟨first, close + 1, isBehind, free, opens, ?_, .inr ⟨?_, ?_⟩⟩
  · exact Compile.skipBlock_crosses ended (bracket_of_symbol opens) even (bracket_of_symbol closes)
  · obtain isInside | isLast := Nat.lt_or_eq_of_le (show close + 1 ≤ body from isClose)
    · exact goesOn _ (by have := even.goesOn.1; omega) isInside
    · rw [isLast]
      exact goesOn_of_symbol headed.opens
  · exact headed.header.followed trivial close (by have := even.goesOn.1; omega) isClose closes

/-- The class or function that starts at a position is among those of an outline. -/
def Starts (context : CompileContext) (outline : Compile.Outline) (position : Nat) : Prop :=
  position ∈ outline.functions ∨
    ∃ keyword, context.Modified position keyword ∧ context.symbol? keyword = some .classKw

/-- Behind a function that has been found comes another item, or the end of what is covered. -/
theorem Tiles.follows
    {outline : Compile.Outline}
    (tiles : context.Tiles outline stop) :
    ∀ start ∈ outline.functions, ∃ keyword body after,
      context.Modified start keyword ∧ context.Spans start body after ∧
        (after = stop ∨ context.Starts outline after) := by
  induction tiles with
  | nothing => simp
  | ofClass _ modified isClass _ inductionHypothesis =>
      intro start isThere
      obtain ⟨keyword, body, after, isStart, spans, rfl | starts⟩ :=
        inductionHypothesis start isThere
      · exact ⟨keyword, body, _, isStart, spans, .inr (.inr ⟨_, modified, isClass⟩)⟩
      · exact ⟨keyword, body, after, isStart, spans, .inr starts⟩
  | ofFunction _ modified _ spansLast inductionHypothesis =>
      intro start isThere
      obtain isEarlier | isLast := List.mem_append.mp isThere
      · obtain ⟨keyword, body, after, isStart, spans, rfl | starts⟩ :=
          inductionHypothesis start isEarlier
        · refine ⟨keyword, body, _, isStart, spans, .inr (.inl ?_)⟩
          exact List.mem_append_right _ (List.mem_singleton_self _)
        · exact ⟨keyword, body, after, isStart, spans,
            .inr (starts.imp_left (List.mem_append_left _))⟩
      · rw [List.mem_singleton.mp isLast]
        exact ⟨_, _, _, modified, spansLast, .inl rfl⟩

/-- The bodies of classes that have been found start with braces. -/
theorem Tiles.opens
    {outline : Compile.Outline}
    (tiles : context.Tiles outline stop) :
    ∀ item ∈ outline.classes, context.symbol? item.body = some .openBlock := by
  induction tiles with
  | nothing => simp
  | ofClass _ _ _ spans inductionHypothesis =>
      intro item isThere
      obtain isEarlier | isLast := List.mem_append.mp isThere
      · exact inductionHypothesis item isEarlier
      · rw [List.mem_singleton.mp isLast]
        exact spans.opens
  | ofFunction _ _ _ _ inductionHypothesis => exact inductionHypothesis

/-- The end of an item is inside of the token list. -/
theorem Spans.lt_size
    (ended : context.Ended)
    (spans : context.Spans start body stop) :
    stop < context.tokens.size := by
  let state : CompileState := { position := body }
  obtain ⟨close, -, closes, isStop⟩ :=
    Compile.skipBlock_ok ended (bracket_of_symbol spans.opens) (spans.skips state rfl)
  have isClose := ended.lt_size (goesOn_of_bracket closes (by decide))
  have isStop : stop = close + 1 := isStop
  omega

/-- What is covered is inside of the token list. -/
theorem Tiles.lt_size
    {outline : Compile.Outline}
    (ended : context.Ended)
    (positive : 0 < context.tokens.size)
    (tiles : context.Tiles outline stop) :
    stop < context.tokens.size := by
  cases tiles with
  | nothing => exact positive
  | ofClass _ _ _ spans => exact spans.lt_size ended
  | ofFunction _ _ _ spans => exact spans.lt_size ended

/-- The first group in braces of an item is the only one. -/
theorem Spans.unique
    {other : Nat}
    (spans : context.Spans start body stop)
    (free : context.Free start other)
    (opens : context.symbol? other = some .openBlock)
    (le : start ≤ other) :
    other = body := by
  refine Nat.le_antisymm (Nat.not_lt.mp fun isBefore => ?_) (Nat.not_lt.mp fun isBefore => ?_)
  · cases (bracket_of_symbol spans.opens).symm.trans (free body spans.le isBefore).2
  · cases (bracket_of_symbol opens).symm.trans (spans.free other le isBefore).2

/-- Whether every function of an outline has a header and a body. -/
def AllHeaded (context : CompileContext) (outline : Compile.Outline) : Prop :=
  ∀ start ∈ outline.functions, ∃ body stop, context.Headed start body stop

/-- A function reaches as far as it has been declared to reach. -/
theorem Tiles.spans_of_headed
    {outline : Compile.Outline}
    {after : Nat}
    (ended : context.Ended)
    (tiles : context.Tiles outline stop)
    (isEnd : (context.token stop).kind = .endOfText)
    (allHeaded : context.AllHeaded outline)
    (isThere : start ∈ outline.functions)
    (headed : context.Headed start body after) :
    context.Spans start body after := by
  obtain ⟨keyword, isBody, isAfter, modified, spans, follows⟩ := tiles.follows start isThere
  obtain ⟨first, last, isBehind, free, opens, skips, isHeader⟩ :=
    headed.first_group ended modified
  obtain rfl := spans.unique free opens (Nat.le_trans modified.le isBehind)
  obtain rfl : last = isAfter := skips.unique spans.skips
  obtain ⟨rfl, rfl⟩ | stuck := isHeader
  · exact spans
  · obtain rfl | isFunction | ⟨keyword, modified, isClass⟩ := follows
    · exact absurd isEnd stuck.goesOn
    · obtain ⟨body, stop, headed⟩ := allHeaded last isFunction
      cases stuck.noItem.symm.trans headed.begins
    · have noItem := stuck.noItem
      rw [← modified.eq_of_begins noItem, begins_of_symbol isClass] at noItem
      cases noItem

end CompileContext

namespace Compile

open CompileContext

variable {context : CompileContext}

/-- A class is found up to the brace that closes its body. -/
theorem scanClass_reads
    (ended : context.Ended)
    (start : Nat) :
    Takes context start
      (fun stop item => start ≤ item.body ∧ context.Free start item.body ∧
        context.symbol? item.body = some .openBlock ∧
        Crosses context skipBlock () item.body stop)
      scanClass := by
  have rest (position : Nat) (le : start ≤ position) (header : context.Free start position)
      (parent : Option (String × Span)) (name : String) (place : Span) :
      Takes context position
        (fun stop item => start ≤ item.body ∧ context.Free start item.body ∧
          context.symbol? item.body = some .openBlock ∧
          Crosses context skipBlock () item.body stop)
        (do
          if !(← at' .openBlock) then fail .openBlock
          let body := (← get).position
          skipBlock
          let tree ← tree
          setTree { tree with classes := tree.classes.push { name, span := place } }
          return (⟨Id.ofIndex tree.classes.size, parent, body⟩ : ClassItem)) := by
    refine .lookingAt (fun opens => ?_) fun _ => ?_
    · rw [Bool.not_true, if_neg Bool.false_ne_true]
      refine .getting fun state starts => .skipping ended opens fun close even closes => ?_
      have crosses :=
        skipBlock_crosses ended (bracket_of_symbol opens) even (bracket_of_symbol closes)
      refine .behind fun tree => .behind fun _ => .pure ?_
      rw [starts]
      exact ⟨le, header, opens, crosses⟩
    · rw [Bool.not_false, if_pos rfl]
      exact .failedThen
  unfold scanClass
  refine .naming ended fun isName name => ?_
  have named := Plain.free (.ofIdentifier isName)
  obtain ⟨name, place⟩ := name
  refine .behind fun registry => .behind fun tree => ?_
  dsimp only
  split
  · exact .failedAtThen
  refine .eating ended (fun isExtends => ?_) fun _ => ?_
  · rw [if_pos rfl]
    have inherits := named.append (Plain.free (.ofSymbol isExtends rfl))
    refine Takes.bind (M := fun stop _ => start ≤ stop ∧ context.Free start stop)
      ((Takes.identifier ended).map fun stop found named => ?_)
      fun stop parent header => rest stop header.1 header.2 parent name place
    obtain ⟨isName, rfl⟩ := named
    exact ⟨by omega, inherits.append (Plain.free (.ofIdentifier isName))⟩
  · rw [if_neg Bool.false_ne_true]
    exact rest _ (Nat.le_succ start) named none name place

/-- The items that are found cover the tokens, if their headers are those of functions. -/
theorem scan_reads
    (ended : context.Ended) :
    Takes context 0
      (fun stop outline => context.AllHeaded outline →
        context.Tiles outline stop ∧ (context.token stop).kind = .endOfText)
      scan := by
  unfold scan
  refine .loop
    (H := fun position outline => context.AllHeaded outline →
      context.Tiles outline position ∨ context.Stuck position)
    (fun _ => .inl .nothing) ?_
  intro position outline tiles
  refine .ending (fun isEnd => ?_) fun goesOn => ?_
  · rw [if_pos rfl]
    refine .pure fun headed => ⟨(tiles headed).resolve_right ?_, isEnd⟩
    exact fun stuck => stuck.goesOn isEnd
  rw [if_neg Bool.false_ne_true]
  refine .lookingAt (fun _ => .failedThen) fun notClosed => ?_
  dsimp only
  rw [if_neg Bool.false_ne_true]
  refine .getting fun state starts => ?_
  refine (parseModifiers_reads ended position).bind fun keyword modifiers modified => ?_
  refine .eating ended (fun isClass => ?_) fun notClass => ?_
  · rw [if_pos rfl]
    refine (scanClass_reads ended _).bind ?_
    rintro stop item ⟨le, free, opens, skips⟩
    refine .pure fun headed => .inl ?_
    have covered := (tiles headed).resolve_right fun stuck => by
      have noItem := stuck.noItem
      rw [← modified.eq_of_begins noItem, begins_of_symbol isClass] at noItem
      cases noItem
    have isFree := modified.free.append (Plain.free (.ofSymbol isClass rfl))
    have le := Nat.le_trans (Nat.le_succ_of_le modified.le) le
    exact .ofClass covered modified isClass ⟨le, isFree.append free, opens, skips⟩
  · rw [if_neg Bool.false_ne_true]
    have earlier
        (headed : context.AllHeaded
          { outline with functions := outline.functions ++ [state.position] }) :
        context.AllHeaded outline :=
      fun start isThere => headed start (List.mem_append_left _ isThere)
    have last
        (headed : context.AllHeaded
          { outline with functions := outline.functions ++ [state.position] }) :
        ∃ body stop, context.Headed position body stop :=
      starts ▸ headed state.position (List.mem_append_right _ (List.mem_singleton_self _))
    by_cases isHeaded : ∃ body stop, context.Headed position body stop
    · obtain ⟨body, stop, isHeaded⟩ := isHeaded
      obtain ⟨first, after, isBehind, free, opens, skips, isAfter⟩ :=
        isHeaded.first_group ended modified
      have crosses : Crosses context skipToBody true keyword after :=
        skipToBody_crosses ended isBehind
          (fun other le lt => free other (Nat.le_trans modified.le le) lt)
          (bracket_of_symbol opens) skips
      refine .crossing crosses (.pure fun headed => ?_)
      refine isAfter.imp (fun _ => ?_) fun stuck => stuck
      have covered := (tiles (earlier headed)).resolve_right fun stuck => by
        cases stuck.noItem.symm.trans isHeaded.begins
      rw [starts]
      have le := Nat.le_trans modified.le isBehind
      exact .ofFunction covered modified notClass ⟨le, free, opens, skips⟩
    · refine Takes.anywhere.bind fun stop found _ => ?_
      split
      · exact .pure fun headed => absurd (last headed) isHeaded
      · exact .pure fun headed => absurd (last headed) isHeaded

end Compile

end BotScript
