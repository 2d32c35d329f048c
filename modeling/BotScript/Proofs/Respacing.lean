import BotScript.Proofs.StableScans
import BotScript.Proofs.TokenSignatures
import BotScript.Proofs.TwinPrograms

namespace BotScript

/-!
# Other separators, the same tokens

If every literal of a text ends with its own closing quote, the separators say
nothing about its tokens: with other ones that start with a blank, and with the
single spaces of the text that signatures are computed over, the same kinds and
texts are scanned again.
-/

/-! ## Separators without unfinished comments -/

/-- A separator whose comments are all finished. -/
inductive Finished : List Char → Prop where
  | nil : Finished []
  | blank {first : Char} {rest : List Char} :
      Scan.isBlank first = true → Finished rest → Finished (first :: rest)
  | lineComment {body rest : List Char} :
      '\n' ∉ body → Finished rest → Finished (['/', '/'] ++ body ++ ['\n'] ++ rest)
  | blockComment {body rest : List Char} :
      ¬['*', '/'] <:+: body ++ ['*'] → Finished rest →
      Finished (['/', '*'] ++ body ++ ['*', '/'] ++ rest)

/-- A separator in front of a token has no unfinished comments. -/
theorem Separates.finished
    {separator behind : List Char}
    (separates : Separates separator behind)
    (bare : Bare behind)
    (goesOn : behind ≠ []) :
    Finished separator := by
  induction separates with
  | nil => exact .nil
  | blank blank _ inductionHypothesis => exact .blank blank (inductionHypothesis bare goesOn)
  | @lineComment body rest behind inBody stops _ inductionHypothesis =>
      have further := inductionHypothesis bare goesOn
      rcases stops with isEnd | ⟨more, same⟩
      · exact absurd (List.append_eq_nil_iff.mp isEnd).2 goesOn
      · cases rest with
        | nil =>
            have lineFeed := bare.noBlank '\n' (by rw [← List.nil_append behind, ← same]; rfl)
            cases lineFeed
        | cons first rest =>
            obtain ⟨rfl, -⟩ := List.cons.inj same
            cases further with
            | blank _ further =>
                have finished := Finished.lineComment inBody further
                simpa using finished
  | blockComment inBody _ inductionHypothesis =>
      exact .blockComment inBody (inductionHypothesis bare goesOn)
  | openComment => exact absurd rfl goesOn

namespace Scan

/-- Between comments, a scan takes a blank and goes on, and anything else stops it. -/
theorem separatorLength_between
    {first : Char}
    {rest : List Char}
    (noLineComment : ¬['/', '/'] <+: first :: rest)
    (noBlockComment : ¬['/', '*'] <+: first :: rest) :
    separatorLength .between (first :: rest) =
      if isBlank first then 1 + separatorLength .between rest else 0 := by
  refine separatorLength.eq_8 first rest (fun more isFirst isRest => ?_)
    fun more isFirst isRest => ?_
  · subst isFirst isRest
    exact noLineComment ⟨more, rfl⟩
  · subst isFirst isRest
    exact noBlockComment ⟨more, rfl⟩

/-- A scan takes nothing of a text that starts with no separator. -/
theorem separatorLength_bare
    {text : List Char}
    (bare : Bare text) :
    separatorLength .between text = 0 := by
  cases text with
  | nil => rfl
  | cons first rest =>
      rw [separatorLength_between bare.noLineComment bare.noBlockComment, bare.noBlank first rfl]
      rfl

/-- A scan goes on behind a blank. -/
theorem separatorLength_blank
    {first : Char}
    (blank : isBlank first = true)
    (rest : List Char) :
    separatorLength .between (first :: rest) = 1 + separatorLength .between rest := by
  rw [separatorLength_between, if_pos blank]
  all_goals
    rintro ⟨more, same⟩
    obtain ⟨rfl, -⟩ := List.cons.inj same
    exact absurd blank (by decide)

/-- A scan goes on behind the line feed of a line comment. -/
theorem separatorLength_lineComment
    {body : List Char}
    (inBody : '\n' ∉ body)
    (rest : List Char) :
    separatorLength .lineComment (body ++ '\n' :: rest) =
      body.length + 1 + separatorLength .between rest := by
  induction body with
  | nil => simp [separatorLength]
  | cons first body inductionHypothesis =>
      simp only [List.mem_cons, not_or] at inBody
      have different : first = '\n' → False := fun same => inBody.1 same.symm
      rw [List.cons_append, separatorLength.eq_5 _ _ different, inductionHypothesis inBody.2,
        List.length_cons]
      omega

/-- A scan goes on behind the end mark of a block comment. -/
theorem separatorLength_blockComment
    {body : List Char}
    (inBody : ¬['*', '/'] <:+: body ++ ['*'])
    (rest : List Char) :
    separatorLength .blockComment (body ++ '*' :: '/' :: rest) =
      body.length + 2 + separatorLength .between rest := by
  induction body with
  | nil => simp [separatorLength]
  | cons first body inductionHypothesis =>
      have further := inductionHypothesis (by
        rintro ⟨before, after, same⟩
        exact inBody ⟨first :: before, after, by simp [← same]⟩)
      have noEnd : ∀ more, first = '*' → body ++ '*' :: '/' :: rest = '/' :: more → False := by
        intro more isFirst isRest
        cases body with
        | nil => cases isRest
        | cons second body =>
            obtain ⟨rfl, -⟩ := List.cons.inj isRest
            exact inBody ⟨[], body ++ ['*'], by simp [isFirst]⟩
      rw [List.cons_append, separatorLength.eq_3 _ _ noEnd, further, List.length_cons]
      omega

/-- A scan takes a finished separator in front of a token. -/
theorem separatorLength_finished
    {separator behind : List Char}
    (finished : Finished separator)
    (bare : Bare behind) :
    separatorLength .between (separator ++ behind) = separator.length := by
  induction finished with
  | nil => exact separatorLength_bare bare
  | blank blank _ inductionHypothesis =>
      rw [List.cons_append, separatorLength_blank blank, inductionHypothesis, List.length_cons]
      omega
  | @lineComment body rest inBody _ inductionHypothesis =>
      have comment := separatorLength_lineComment inBody (rest ++ behind)
      simp [separatorLength, comment, inductionHypothesis]
      omega
  | @blockComment body rest inBody _ inductionHypothesis =>
      have comment := separatorLength_blockComment inBody (rest ++ behind)
      simp [separatorLength, comment, inductionHypothesis]
      omega

end Scan

/-! ## Texts with other separators -/

/-- Two texts that are the same up to a blank or the end of the second one. -/
def SameUpToBlank (text other : List Char) : Prop :=
  ∃ part behind blank,
    text = part ++ behind ∧ other = part ++ blank ∧ Scan.StartsBlank blank

/-- Texts with the same start are the same up to a blank if the rests are. -/
theorem SameUpToBlank.append
    {text other : List Char}
    (same : SameUpToBlank text other)
    (start : List Char) :
    SameUpToBlank (start ++ text) (start ++ other) := by
  obtain ⟨part, behind, blank, rfl, rfl, startsBlank⟩ := same
  exact ⟨start ++ part, behind, blank, by simp, by simp, startsBlank⟩

/-- Whether a separator stands at the start is told by the text up to the next blank. -/
theorem Bare.ofSame
    {first : Char}
    {part behind blank : List Char}
    (bare : Bare (first :: part ++ behind))
    (startsBlank : Scan.StartsBlank blank) :
    Bare (first :: part ++ blank) where
  noBlank := fun _ isFirst => bare.noBlank _ isFirst
  noLineComment := fun starts =>
    bare.noLineComment
      ((Scan.prefix_of_startsBlank (by simp [Scan.isBlank]) startsBlank starts).trans
        (List.prefix_append _ _))
  noBlockComment := fun starts =>
    bare.noBlockComment
      ((Scan.prefix_of_startsBlank (by simp [Scan.isBlank]) startsBlank starts).trans
        (List.prefix_append _ _))

/--
The texts of tokens with their separators, or with other ones that start with a
blank and have no unfinished comments.  In front of the end there need not be any.
-/
inductive Respaced : List Token → List Char → Prop where
  | last {token : Token} : Respaced [token] []
  | kept {token next : Token} {tokens : List Token} {text : List Char} :
      Respaced (next :: tokens) text →
      Respaced (token :: next :: tokens) (token.text.toList ++ (token.separator.toList ++ text))
  | replaced {token next : Token} {tokens : List Token} {text : List Char} {first : Char}
      {separator : List Char} :
      Scan.isBlank first = true →
      Finished (first :: separator) →
      Respaced (next :: tokens) text →
      Respaced (token :: next :: tokens) (token.text.toList ++ (first :: separator ++ text))
  | dropped {token last : Token} : Respaced [token, last] token.text.toList

/-- What is read of a text from a position on. -/
def Scan.wordsFrom (constants : Constants) (position : Nat) (text : List Char) :
    List (TokenKind × String) :=
  (tokensFrom constants position text).map Token.word

/-- A text is scanned to the same words, starts with no separator, and is the same up to a blank. -/
structure Scan.Rescanned (constants : Constants) (position : Nat) (text other : List Char) :
    Prop where
  bare : Bare other
  same : SameUpToBlank text other
  words : ∀ further, wordsFrom constants further other = wordsFrom constants position text

namespace Scan

/-- The tokens of a text that goes on: the first one, and those of what is left. -/
theorem tokensFrom_cons
    (constants : Constants)
    (position : Nat)
    (first : Char)
    (rest : List Char) :
    ∃ span separator further,
      let behind := rest.drop (tokenTail first rest)
      let size := separatorLength .between behind
      separator = String.ofList (behind.take size) ∧
      tokensFrom constants position (first :: rest) =
        ⟨tokenKind constants first (tokenText first rest), tokenText first rest, span, separator⟩ ::
          tokensFrom constants further (behind.drop size) := by
  rw [tokensFrom]
  exact ⟨_, _, _, rfl, rfl⟩

/-- Some token is scanned of every text. -/
theorem tokensFrom_eq_cons
    (constants : Constants)
    (position : Nat)
    (text : List Char) :
    ∃ token tokens, tokensFrom constants position text = token :: tokens := by
  unfold tokensFrom
  split <;> exact ⟨_, _, rfl⟩

section Rescanned

variable {constants : Constants} {position : Nat} {left other : List Char}

/-- At the end of the text nothing else is scanned. -/
theorem Rescanned.eq_nil
    (rescanned : Rescanned constants position [] other) :
    other = [] := by
  obtain ⟨part, behind, blank, isEnd, rfl, startsBlank⟩ := rescanned.same
  obtain ⟨rfl, rfl⟩ := List.append_eq_nil_iff.mp isEnd.symm
  cases blank with
  | nil => rfl
  | cons first blank =>
      exact absurd ((rescanned.bare.noBlank first rfl).symm.trans (startsBlank first rfl))
        Bool.false_ne_true

/-- In front of what is scanned to the same words, a separator is taken that was taken before. -/
theorem Rescanned.kept
    {separator behind : List Char}
    (rescanned : Rescanned constants position left other)
    (bare : Bare left)
    (separates : Separates separator left)
    (cut : behind = separator ++ left)
    (stays : behind.drop (separatorLength .between behind) = left) :
    (separator ++ other).drop (separatorLength .between (separator ++ other)) = other := by
  by_cases goesOn : left = []
  · -- The separator may have an unfinished comment, but nothing follows it.
    subst goesOn
    obtain rfl := rescanned.eq_nil
    rw [← cut, stays]
  · rw [separatorLength_finished (separates.finished bare goesOn) rescanned.bare, List.drop_left]

/--
What follows a token with another separator is the same up to a blank, and what
is left behind the separator is scanned to the same words.
-/
theorem behind_respaced
    {behind : List Char}
    {token : Token}
    (bare : Bare left)
    (separates : Separates token.separator.toList left)
    (cut : behind = token.separator.toList ++ left)
    (stays : behind.drop (separatorLength .between behind) = left)
    (rescans : ∀ other, Respaced (tokensFrom constants position left) other →
      Rescanned constants position left other)
    (respaced : Respaced (token :: tokensFrom constants position left) other) :
    ∃ spaced, other = token.text.toList ++ spaced ∧ SameUpToBlank behind spaced ∧
      Rescanned constants position left (spaced.drop (separatorLength .between spaced)) := by
  obtain ⟨next, tokens, scanned⟩ := tokensFrom_eq_cons constants position left
  rw [scanned] at respaced rescans
  cases respaced with
  | @kept _ _ _ text further =>
      have rescanned := rescans text further
      refine ⟨token.separator.toList ++ text, rfl, cut ▸ rescanned.same.append _, ?_⟩
      rw [rescanned.kept bare separates cut stays]
      exact rescanned
  | @replaced _ _ _ text first separator blank finished further =>
      have rescanned := rescans text further
      refine ⟨first :: separator ++ text, rfl, ⟨[], behind, _, rfl, rfl, ?_⟩, ?_⟩
      · rintro _ ⟨⟩
        exact blank
      · rw [separatorLength_finished finished rescanned.bare, List.drop_left]
        exact rescanned
  | dropped =>
      exact ⟨[], (List.append_nil _).symm, ⟨[], behind, [], rfl, rfl, by simp [StartsBlank]⟩,
        rescans [] .last⟩

end Rescanned

/-- A text with other separators is scanned to the same words. -/
theorem tokensFrom_respaced
    {constants : Constants}
    {position : Nat}
    {text other : List Char}
    (bare : Bare text)
    (closed : ∀ token ∈ tokensFrom constants position text, token.Closed)
    (respaced : Respaced (tokensFrom constants position text) other) :
    Rescanned constants position text other := by
  match text with
  | [] =>
      unfold tokensFrom at respaced
      cases respaced
      refine ⟨bare_nil, ⟨[], [], [], rfl, rfl, by simp [StartsBlank]⟩, fun further => ?_⟩
      simp [wordsFrom, tokensFrom, Token.word]
  | first :: rest =>
      obtain ⟨span, separator, further, isSeparator, scanned⟩ :=
        tokensFrom_cons constants position first rest
      let taken := rest.take (tokenTail first rest)
      let behind := rest.drop (tokenTail first rest)
      let left := behind.drop (separatorLength .between behind)
      rw [scanned] at closed respaced
      have inside := tokenTail_le (closed _ List.mem_cons_self)
      have size : taken.length = tokenTail first rest := by
        rw [List.length_take, Nat.min_eq_left inside]
      obtain ⟨separates, bareLeft⟩ := separatorLength_separated .between behind
      obtain ⟨spaced, rfl, same, rescanned⟩ := behind_respaced bareLeft
        (by rw [isSeparator, String.toList_ofList]; exact separates)
        (by rw [isSeparator, String.toList_ofList]; exact (List.take_append_drop _ _).symm) rfl
        (fun other => tokensFrom_respaced bareLeft
          fun token member => closed token (List.mem_cons_of_mem _ member)) respaced
      -- The token ends where it did, so that what follows it is the other separator.
      have spelledText : (tokenText first rest).toList = first :: taken := String.toList_ofList
      obtain ⟨part, after, blank, sameBehind, rfl, startsBlank⟩ := same
      have whole : rest = (taken ++ part) ++ after := by
        rw [List.append_assoc, ← sameBehind]
        exact (List.take_append_drop _ _).symm
      have tail : tokenTail first (taken ++ (part ++ blank)) = taken.length := by
        rw [size, ← List.append_assoc]
        have closedToken := closed _ List.mem_cons_self
        rw [whole] at closedToken
        have stays := tokenTail_same closedToken startsBlank
          (by rw [← whole, ← size, List.length_append]; exact Nat.le_add_right _ _)
        rw [stays, ← whole]
      have sameText : tokenText first (taken ++ (part ++ blank)) = tokenText first rest := by
        unfold tokenText
        rw [tail, List.take_left]
      rw [spelledText]
      have sameWhole : SameUpToBlank (first :: rest) (first :: taken ++ (part ++ blank)) :=
        ⟨first :: (taken ++ part), after, blank, by rw [whole]; rfl, by simp, startsBlank⟩
      refine ⟨?_, sameWhole, fun start => ?_⟩
      · have whole' : first :: rest = first :: (taken ++ part) ++ after := by rw [whole]; rfl
        rw [whole'] at bare
        have bareOther := bare.ofSame startsBlank
        simpa using bareOther
      · obtain ⟨otherSpan, otherSeparator, otherFurther, -, otherScanned⟩ :=
          tokensFrom_cons constants start first (taken ++ (part ++ blank))
        rw [tail, List.drop_left, sameText] at otherScanned
        have words := rescanned.words otherFurther
        unfold wordsFrom at words ⊢
        rw [scanned, List.cons_append, otherScanned, List.map_cons, List.map_cons, words]
        rfl
termination_by text.length
decreasing_by
  simp only [List.length_drop, List.length_cons]
  omega

end Scan

/-! ## Token lists -/

/-- Single spaces are other separators, also if the mark of the end is left out. -/
theorem Respaced.intercalate
    {last : Token}
    (atEnd : last.text = "")
    (tokens : List Token) :
    Respaced (tokens ++ [last]) (" ".intercalate ((tokens ++ [last]).map Token.text)).toList ∧
      Respaced (tokens ++ [last]) (" ".intercalate (tokens.map Token.text)).toList := by
  induction tokens with
  | nil =>
      have noText : (" ".intercalate [last.text]).toList = [] := by
        rw [String.intercalate_singleton, atEnd]
        rfl
      exact ⟨noText ▸ .last, .last⟩
  | cons token tokens inductionHypothesis =>
      cases tokens with
      | nil =>
          constructor
          · have spaced := @replaced token last [] [] ' ' [] rfl (.blank rfl .nil) .last
            simpa [atEnd] using spaced
          · simpa using @dropped token last
      | cons next tokens =>
          have space : Finished [' '] := .blank rfl .nil
          constructor
          · have spaced := @replaced token next _ _ ' ' [] rfl space inductionHypothesis.1
            simpa [String.intercalate_cons_cons] using spaced
          · have spaced := @replaced token next _ _ ' ' [] rfl space inductionHypothesis.2
            simpa [String.intercalate_cons_cons] using spaced

/-- The tokens of a text end with a mark that has no text. -/
theorem Lexed.atEnd
    {constants : Constants}
    {position : Nat}
    {text : List Char}
    {tokens : List Token}
    (lexed : Lexed constants position text tokens) :
    ∃ former last, tokens = former ++ [last] ∧ last.text = "" := by
  induction lexed with
  | @last _ token _ text => exact ⟨[], token, rfl, text⟩
  | @more _ _ _ _ token _ _ _ _ _ _ _ inductionHypothesis =>
      obtain ⟨former, last, rfl, text⟩ := inductionHypothesis
      exact ⟨token :: former, last, rfl, text⟩

namespace TokenList

variable {constants : Constants} {source : String} {list : TokenList}

/-- Every literal of a list ends with its own closing quote. -/
def Closed (list : TokenList) : Prop :=
  ∀ token ∈ list.tokens.toList, token.Closed

/-- A text with the tokens of a list and other separators. -/
def Respaced (list : TokenList) (text : String) : Prop :=
  ∃ leading rest,
    text.toList = leading ++ rest ∧
      (leading = list.leading.toList ∨ Finished leading) ∧
      BotScript.Respaced list.tokens.toList rest

/-- The token texts with single spaces between them, which the whole signature is computed over. -/
def joined (list : TokenList) : String :=
  " ".intercalate (list.textsBetween 0 (list.size - 1))

/-- The token texts with single spaces between them, without the mark of the end. -/
def joinedInside (list : TokenList) : String :=
  " ".intercalate (list.tokens.toList.dropLast.map Token.text)

/-- The whole signature is that of the joined texts. -/
theorem wholeSignature_eq_joined
    {list : TokenList}
    (filled : 0 < list.size)
    (fits : list.size ≤ UInt32.size) :
    list.wholeSignature = Crc32.ofText list.joined :=
  signature_eq_ofText (Nat.zero_le _) (by omega) (by omega)

/-- The range of all tokens has the texts of all tokens. -/
theorem joined_eq
    (list : TokenList) :
    list.joined = " ".intercalate (list.tokens.toList.map Token.text) := by
  have all : list.tokens.toList.take (list.size - 1 + 1 - 0) = list.tokens.toList := by
    refine List.take_of_length_le ?_
    rw [Array.length_toList, TokenList.size]
    omega
  unfold joined textsBetween
  simp only [Nat.zero_le, if_true, List.drop_zero, all]

/-- The joined texts of a list are a text with other separators. -/
theorem respaced_joined
    (constants : Constants)
    (source : String) :
    (ofSource constants source).Respaced (ofSource constants source).joined ∧
      (ofSource constants source).Respaced (ofSource constants source).joinedInside := by
  obtain ⟨-, bare⟩ := Scan.separatorLength_separated .between source.toList
  obtain ⟨former, last, tokens, text⟩ := (@Scan.tokensFrom_lexed constants
    (ofSource constants source).leading.utf8ByteSize _ bare).atEnd
  have list : (ofSource constants source).tokens.toList = former ++ [last] := tokens
  obtain ⟨whole, inside⟩ := Respaced.intercalate text former
  rw [joined_eq]
  unfold joinedInside Respaced
  rw [list, List.dropLast_concat]
  exact ⟨⟨[], _, rfl, .inr .nil, whole⟩, ⟨[], _, rfl, .inr .nil, inside⟩⟩

/-- A text with other separators has the same words. -/
theorem words_respaced
    {text : String}
    (closed : (ofSource constants source).Closed)
    (respaced : (ofSource constants source).Respaced text) :
    (ofSource constants text).words = (ofSource constants source).words := by
  obtain ⟨leading, rest, spelled, isLeading, respaced⟩ := respaced
  obtain ⟨separates, bare⟩ := Scan.separatorLength_separated .between source.toList
  have rescanned := Scan.tokensFrom_respaced bare closed respaced
  have left : text.toList.drop (Scan.separatorLength .between text.toList) = rest := by
    rw [spelled]
    rcases isLeading with rfl | finished
    · have leadingText : (ofSource constants source).leading.toList =
          source.toList.take (Scan.separatorLength .between source.toList) :=
        String.toList_ofList
      rw [leadingText]
      exact rescanned.kept bare separates (List.take_append_drop _ _).symm rfl
    · rw [Scan.separatorLength_finished finished rescanned.bare, List.drop_left]
  have words := rescanned.words (ofSource constants text).leading.utf8ByteSize
  rw [← left] at words
  exact words

/--
If every literal of a text ends with its own closing quote, the joined texts of
its tokens have the same words, another such text with the same joined texts has
them too, and other separators change neither the words nor any signature.
-/
theorem ofSource_respaced
    (closed : (ofSource constants source).Closed) :
    (ofSource constants (ofSource constants source).joined).words =
        (ofSource constants source).words ∧
      (ofSource constants (ofSource constants source).joinedInside).words =
        (ofSource constants source).words ∧
      (∀ other, (ofSource constants other).Closed →
        (ofSource constants other).joined = (ofSource constants source).joined →
        (ofSource constants other).words = (ofSource constants source).words) ∧
      ∀ text, (ofSource constants source).Respaced text →
        (ofSource constants text).words = (ofSource constants source).words ∧
          ∀ first last,
            (ofSource constants text).signature first last =
              (ofSource constants source).signature first last := by
  have words := words_respaced closed (respaced_joined constants source).1
  refine ⟨words, words_respaced closed (respaced_joined constants source).2, ?_, ?_⟩
  · intro other otherClosed same
    have otherWords := words_respaced otherClosed (respaced_joined constants other).1
    rw [same] at otherWords
    exact otherWords.symm.trans words
  · intro text respaced
    have sameWords := words_respaced closed respaced
    refine ⟨sameWords, fun first last => ?_⟩
    exact signature_of_words sameWords first last

/-- Escaped quotes and comments without blanks around them, joined by spaces and read again. -/
theorem ofSource_respaced_quotes :
    let list := ofSource .empty "a='\\''/*b*/+\"c\\\"\"//d"
    list.Closed ∧
      (ofSource .empty list.joined).words =
        [(.identifier, "a"), (.symbol .assign, "="), (.character, "'\\''"), (.symbol .plus, "+"),
          (.string, "\"c\\\"\""), (.endOfText, "")] := by
  intro list
  have words : list.words =
      [(.identifier, "a"), (.symbol .assign, "="), (.character, "'\\''"), (.symbol .plus, "+"),
        (.string, "\"c\\\"\""), (.endOfText, "")] := by
    decide +kernel
  have closed : list.Closed := by
    intro token member
    have word : token.word ∈ list.words := List.mem_map_of_mem member
    rw [words] at word
    constructor
    · intro kind
      have text : token.text = "\"c\\\"\"" := by simpa [Token.word, kind] using word
      refine ⟨['c', '\\', '"'], ?_, by rw [text]; decide⟩
      exact .plain (by decide) (by decide) rfl (.escaped rfl .nil)
    · intro kind
      have text : token.text = "'\\''" := by simpa [Token.word, kind] using word
      exact ⟨['\\', '\''], .escaped (by decide) rfl rfl, by rw [text]; decide⟩
  exact ⟨closed, (ofSource_respaced closed).1.trans words⟩

end TokenList

end BotScript
