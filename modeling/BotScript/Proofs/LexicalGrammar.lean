import BotScript.Proofs.Tokenization

namespace BotScript

/-!
# The lexical grammar

What a text is cut into is told by a grammar: separators are blanks and
comments, and what a token is follows from the character it starts with.
Operators are the longest ones that the rest of the text starts with, and words
are runs that no blank, operator or quote breaks.
-/

/-! ## Separators -/

/-- A separator in front of the rest of a text. -/
inductive Separates : List Char → List Char → Prop where
  | nil {behind : List Char} : Separates [] behind
  | blank {first : Char} {rest behind : List Char} :
      Scan.isBlank first = true → Separates rest behind → Separates (first :: rest) behind
  /-- A line comment goes up to a line feed or the end of the text, without either. -/
  | lineComment {body rest behind : List Char} :
      '\n' ∉ body →
      rest ++ behind = [] ∨ ['\n'] <+: rest ++ behind →
      Separates rest behind →
      Separates (['/', '/'] ++ body ++ rest) behind
  /-- A block comment goes up to the first end mark that follows its start mark. -/
  | blockComment {body rest behind : List Char} :
      ¬['*', '/'] <:+: body ++ ['*'] →
      Separates rest behind →
      Separates (['/', '*'] ++ body ++ ['*', '/'] ++ rest) behind
  /-- A block comment without an end mark goes up to the end of the text. -/
  | openComment {body : List Char} :
      ¬['*', '/'] <:+: body → Separates (['/', '*'] ++ body) []

/-- A text that starts with neither a blank nor a comment. -/
structure Bare (text : List Char) : Prop where
  noBlank : ∀ first, text.head? = some first → Scan.isBlank first = false
  noLineComment : ¬['/', '/'] <+: text
  noBlockComment : ¬['/', '*'] <+: text

namespace Scan

/-- What is taken of a text in a place of a separator scan, and what is left. -/
def Separated (place : SeparatorPlace) (text taken left : List Char) : Prop :=
  match place with
  | .between => Separates taken left ∧ Bare left
  | .lineComment =>
      ∀ body, '\n' ∉ body → Separates (['/', '/'] ++ body ++ taken) left ∧ Bare left
  | .blockComment =>
      ∀ body, ¬['*', '/'] <:+: body ++ text.take 1 →
        Separates (['/', '*'] ++ body ++ taken) left ∧ Bare left

/-- The empty text starts with nothing. -/
theorem bare_nil : Bare [] :=
  ⟨by simp, by simp, by simp⟩

/-- One more character of a text does not end a comment if the two before it do not. -/
theorem not_endMark_snoc
    {body : List Char}
    {first : Char}
    {rest : List Char}
    (inBody : ¬['*', '/'] <:+: body ++ [first])
    (next : ∀ more, first = '*' → rest = '/' :: more → False) :
    ¬['*', '/'] <:+: body ++ [first] ++ rest.take 1 := by
  cases rest with
  | nil => simpa using inBody
  | cons second more =>
      rintro ⟨before, after, same⟩
      rcases after.eq_nil_or_concat with rfl | ⟨former, last, rfl⟩
      · have ends : before ++ ['*', '/'] = body ++ [first, second] := by simpa using same
        obtain ⟨-, ends⟩ := List.append_inj' ends rfl
        simp only [List.cons.injEq, and_true] at ends
        exact next more ends.1.symm (by rw [← ends.2])
      · have same : (before ++ ['*', '/'] ++ former) ++ [last] = (body ++ [first]) ++ [second] := by
          simpa using same
        exact inBody ⟨before, former, (List.append_inj' same rfl).1⟩

/-- A scan takes what separates, and leaves a text that starts with no separator. -/
theorem separatorLength_separated
    (place : SeparatorPlace)
    (text : List Char) :
    Separated place text (text.take (separatorLength place text))
      (text.drop (separatorLength place text)) := by
  induction place, text using separatorLength.induct with
  | case1 place =>
      cases place with
      | between => exact ⟨.nil, bare_nil⟩
      | lineComment => exact fun body inBody => ⟨.lineComment inBody (.inl rfl) .nil, bare_nil⟩
      | blockComment =>
          refine fun body inBody => ⟨?_, bare_nil⟩
          rw [List.take_nil, List.append_nil]
          exact .openComment (by simpa using inBody)
  | case2 rest inductionHypothesis =>
      intro body inBody
      simp only [separatorLength, Nat.add_comm 2, List.take_succ_cons, List.drop_succ_cons]
      refine ⟨?_, inductionHypothesis.2⟩
      have closed := @Separates.blockComment body _ _ (by simpa using inBody) inductionHypothesis.1
      simpa using closed
  | case3 first rest different inductionHypothesis =>
      intro body inBody
      simp only [separatorLength, Nat.add_comm 1, List.take_succ_cons, List.drop_succ_cons]
      have further := inductionHypothesis (body ++ [first])
        (not_endMark_snoc (by simpa using inBody) different)
      simpa using further
  | case4 rest inductionHypothesis =>
      intro body inBody
      simp only [separatorLength, Nat.add_comm 1, List.take_succ_cons, List.drop_succ_cons]
      exact ⟨.lineComment inBody (.inr ⟨_, rfl⟩) (.blank rfl inductionHypothesis.1),
        inductionHypothesis.2⟩
  | case5 first rest different inductionHypothesis =>
      intro body inBody
      simp only [separatorLength, Nat.add_comm 1, List.take_succ_cons, List.drop_succ_cons]
      have further := inductionHypothesis (body ++ [first])
        (by simpa [inBody] using fun same => different same.symm)
      simpa using further
  | case6 rest inductionHypothesis =>
      simp only [separatorLength, Nat.add_comm 2, List.take_succ_cons, List.drop_succ_cons]
      exact inductionHypothesis [] (by simp)
  | case7 rest inductionHypothesis =>
      simp only [separatorLength, Nat.add_comm 2, List.take_succ_cons, List.drop_succ_cons]
      refine inductionHypothesis [] fun inside => ?_
      have short : 2 ≤ (rest.take 1).length := inside.length_le
      rw [List.length_take] at short
      omega
  | case8 first rest noLine noBlock blank inductionHypothesis =>
      simp only [separatorLength, if_pos blank, Nat.add_comm 1, List.take_succ_cons,
        List.drop_succ_cons]
      exact ⟨.blank blank inductionHypothesis.1, inductionHypothesis.2⟩
  | case9 first rest noLine noBlock blank =>
      simp only [separatorLength, if_neg blank]
      refine ⟨.nil, ⟨?_, ?_, ?_⟩⟩
      · rintro _ ⟨⟩
        exact eq_false_of_ne_true blank
      · rintro ⟨more, ⟨⟩⟩
        exact noLine more rfl rfl
      · rintro ⟨more, ⟨⟩⟩
        exact noBlock more rfl rfl

end Scan

/-! ## Tokens -/

namespace Symbol

/-- The longest operator that a text starts with. -/
structure IsLongestOperator (text : List Char) (symbol : Symbol) : Prop where
  operator : symbol ∈ operators
  starts : symbol.text.toList <+: text
  longest :
    ∀ other ∈ operators, other.text.toList <+: text → other.text.length ≤ symbol.text.length

/-- Operators have one to four characters. -/
theorem operators_length :
    ∀ symbol ∈ operators, symbol.text.length ∈ [4, 3, 2, 1] := by
  decide

/-- The first character of an operator is an operator by itself. -/
theorem operators_head :
    ∀ symbol ∈ operators, ∃ single ∈ operators,
      single.text.toList = symbol.text.toList.head?.toList := by
  decide

/-- An operator is found by its text. -/
theorem operator?_text :
    ∀ symbol ∈ operators, operator? symbol.text = some symbol := by
  decide

/-- What is found by a text is the operator of that text. -/
theorem operator?_some
    {text : String}
    {symbol : Symbol}
    (found : operator? text = some symbol) :
    symbol ∈ operators ∧ symbol.text = text :=
  ⟨List.mem_of_find?_eq_some found, by simpa using List.find?_some found⟩

/-- The operator that is a given number of characters long and starts a text, if there is one. -/
theorem operator?_take_eq_some_iff
    {text : List Char}
    {length : Nat}
    {symbol : Symbol} :
    (if length ≤ text.length then operator? (String.ofList (text.take length)) else none) =
        some symbol ↔
      symbol ∈ operators ∧ symbol.text.toList <+: text ∧ symbol.text.length = length := by
  constructor
  · intro found
    split at found
    case isFalse => cases found
    case isTrue inside =>
      obtain ⟨operator, same⟩ := operator?_some found
      have spelled : symbol.text.toList = text.take length := by rw [same, String.toList_ofList]
      refine ⟨operator, spelled ▸ List.take_prefix _ _, ?_⟩
      rw [← String.length_toList, spelled, List.length_take, Nat.min_eq_left inside]
  · rintro ⟨operator, starts, rfl⟩
    have spelled : symbol.text.toList = text.take symbol.text.length := by
      rw [← String.length_toList]
      exact List.prefix_iff_eq_take.mp starts
    have inside : symbol.text.length ≤ text.length := by
      rw [← String.length_toList]
      exact starts.length_le
    rw [if_pos inside, ← spelled, String.ofList_toList]
    exact operator?_text symbol operator

/-- What is found by longest match is the longest operator that the text starts with. -/
theorem isLongestOperator_of_some
    {text : List Char}
    {symbol : Symbol}
    (found : longestOperator? text = some symbol) :
    symbol.IsLongestOperator text := by
  obtain ⟨longer, length, shorter, lengths, here, former⟩ := List.findSome?_eq_some_iff.mp found
  obtain ⟨operator, starts, rfl⟩ := operator?_take_eq_some_iff.mp here
  refine ⟨operator, starts, fun other isOperator otherStarts => ?_⟩
  have descending : (longer ++ symbol.text.length :: shorter).Pairwise (· > ·) := by
    rw [← lengths]
    decide
  have position := operators_length other isOperator
  rw [lengths, List.mem_append, List.mem_cons] at position
  rcases position with isLonger | same | isShorter
  · have missed := former _ isLonger
    rw [operator?_take_eq_some_iff.mpr ⟨isOperator, otherStarts, rfl⟩] at missed
    cases missed
  · exact Nat.le_of_eq same
  · obtain ⟨-, behind, -⟩ := List.pairwise_append.mp descending
    exact Nat.le_of_lt ((List.pairwise_cons.mp behind).1 _ isShorter)

/-- If a text starts with an operator, one is found. -/
theorem longestOperator?_isSome
    {text : List Char}
    {symbol : Symbol}
    (operator : symbol ∈ operators)
    (starts : symbol.text.toList <+: text) :
    ∃ longest, longestOperator? text = some longest := by
  rw [← Option.isSome_iff_exists, Option.isSome_iff_ne_none]
  intro missed
  have none := List.findSome?_eq_none_iff.mp missed _ (operators_length symbol operator)
  rw [operator?_take_eq_some_iff.mpr ⟨operator, starts, rfl⟩] at none
  cases none

end Symbol

/-- A character that some operator starts with. -/
def StartsOperator (first : Char) : Prop :=
  ∃ symbol ∈ Symbol.operators, symbol.text.toList.head? = some first

/-- The kind of a word: its keyword, else its constant, else an identifier. -/
inductive WordKind (constants : Constants) (word : String) : TokenKind → Prop where
  | keyword {symbol : Symbol} :
      symbol ∈ Symbol.keywords → symbol.text = word → WordKind constants word (.symbol symbol)
  | constant {value : Int64} :
      (∀ symbol ∈ Symbol.keywords, symbol.text ≠ word) →
      constants.get? word = some value →
      WordKind constants word (.constant value)
  | identifier :
      (∀ symbol ∈ Symbol.keywords, symbol.text ≠ word) →
      constants.get? word = none →
      WordKind constants word .identifier

/-- A character inside words: no blank, none that starts an operator, and no quote. -/
def InWord (character : Char) : Prop :=
  Scan.isBlank character = false ∧ ¬StartsOperator character ∧ character ≠ '"' ∧ character ≠ '\''

/-- The longest part of a text from its start on that satisfies a condition everywhere. -/
structure IsMaximalRun (holds : Char → Prop) (text run : List Char) : Prop where
  starts : run <+: text
  inside : ∀ character ∈ run, holds character
  stops : ∀ next, text[run.length]? = some next → ¬holds next

/-- What the lexical grammar says of the token at the start of a text, by its first character. -/
structure Classified
    (constants : Constants) (text : List Char) (first : Char) (token : Token) :
    Prop where
  string : first = '"' → token.kind = .string
  character : first = '\'' → token.kind = .character
  number : first.isDigit = true → token.kind = .number
  operator :
    StartsOperator first →
      ∃ symbol : Symbol,
        symbol.IsLongestOperator text ∧ token.kind = .symbol symbol ∧ token.text = symbol.text
  word :
    first ≠ '"' → first ≠ '\'' → first.isDigit = false → ¬StartsOperator first →
      IsMaximalRun InWord text token.text.toList ∧ WordKind constants token.text token.kind

/-- No character but the end of the text makes a token the mark of the end. -/
theorem Classified.kind_ne_endOfText
    {constants : Constants}
    {text : List Char}
    {first : Char}
    {token : Token}
    (classified : Classified constants text first token) :
    token.kind ≠ .endOfText := by
  intro isEnd
  by_cases string : first = '"'
  · cases isEnd.symm.trans (classified.string string)
  by_cases character : first = '\''
  · cases isEnd.symm.trans (classified.character character)
  cases digit : first.isDigit with
  | true => cases isEnd.symm.trans (classified.number digit)
  | false =>
      by_cases starts : StartsOperator first
      · obtain ⟨symbol, -, kind, -⟩ := classified.operator starts
        cases isEnd.symm.trans kind
      · have word := (classified.word string character digit starts).2
        rw [isEnd] at word
        cases word

namespace Scan

/-- The characters that start an operator are those that operators start with. -/
theorem isOperatorStart_iff
    {first : Char} :
    isOperatorStart first = true ↔ StartsOperator first := by
  have found :
      [',', ':', '(', ')', '[', ']', '\x7b', '\x7d', '-', '+', '*', '/', '=', ';', '<', '>', '!',
        '~', '^', '|', '&', '%', '.', '?'].all (fun character =>
          Symbol.operators.any fun symbol =>
            symbol.text.toList.head? == some character) = true := by
    decide
  have listed :
      ∀ symbol ∈ Symbol.operators, symbol.text.toList.head?.all isOperatorStart = true := by
    decide
  constructor
  · intro starts
    simpa [StartsOperator] using
      List.all_eq_true.mp found first (List.contains_iff_mem.mp starts)
  · rintro ⟨symbol, operator, starts⟩
    simpa [starts] using listed symbol operator

/-- Words consist of the characters that do not end them. -/
theorem inWord_iff
    {character : Char} :
    InWord character ↔ (!endsWord character) = true := by
  unfold InWord
  rw [← isOperatorStart_iff]
  simp [endsWord, and_assoc]

/-- The characters that satisfy a test are a maximal run of them. -/
theorem takeWhile_isMaximalRun
    {holds : Char → Prop}
    {test : Char → Bool}
    (tests : ∀ character, holds character ↔ test character = true)
    (text : List Char) :
    IsMaximalRun holds text (text.takeWhile test) where
  starts := List.takeWhile_prefix test
  inside := fun character inside => 
    (tests character).mpr (List.all_eq_true.mp List.all_takeWhile character inside)
  stops := by
    intro next here holdsNext
    have passes := (tests next).mp holdsNext
    induction text with
    | nil => simp at here
    | cons first rest inductionHypothesis =>
        cases tested : test first with
        | true => exact inductionHypothesis (by simpa [List.takeWhile_cons, tested] using here)
        | false =>
            obtain rfl : first = next := by simpa [List.takeWhile_cons, tested] using here
            exact Bool.false_ne_true (tested.symm.trans passes)

/-- The kind of a word is the one that the grammar gives it. -/
theorem wordKind_wordKind
    (constants : Constants)
    (word : String) :
    WordKind constants word (wordKind constants word) := by
  unfold wordKind
  split
  case h_1 symbol found =>
    exact .keyword (List.mem_of_find?_eq_some found) (by simpa using List.find?_some found)
  case h_2 missed =>
    have noKeyword : ∀ symbol ∈ Symbol.keywords, symbol.text ≠ word := fun symbol keyword => by
      simpa using List.find?_eq_none.mp missed symbol keyword
    split
    case h_1 value known => exact .constant noKeyword known
    case h_2 unknown => exact .identifier noKeyword unknown

/-- No quote and no character that starts an operator is a digit. -/
theorem not_isDigit
    {first : Char}
    (special : first = '"' ∨ first = '\'' ∨ StartsOperator first) :
    first.isDigit = false := by
  have listed : ∀ symbol ∈ Symbol.operators,
      symbol.text.toList.head?.all (fun first => !first.isDigit) = true := by
    decide
  rcases special with rfl | rfl | ⟨symbol, operator, starts⟩
  · rfl
  · rfl
  · simpa [starts] using listed symbol operator

/-- The text of the token at the start of a text is as long as the scan says. -/
def tokenText (first : Char) (rest : List Char) : String :=
  String.ofList (first :: rest.take (tokenTail first rest))

/-- A token that is scanned is what the grammar says of its first character. -/
theorem classified
    {constants : Constants}
    {first : Char}
    {rest : List Char}
    (bare : Bare (first :: rest))
    (span : Span)
    (separator : String) :
    Classified constants (first :: rest) first
      ⟨tokenKind constants first (tokenText first rest), tokenText first rest, span,
        separator⟩ where
  string := by
    rintro rfl
    rfl
  character := by
    rintro rfl
    rfl
  number := by
    intro digit
    have noString : ¬first = '"' := fun quote =>
      Bool.false_ne_true ((not_isDigit (.inl quote)).symm.trans digit)
    have noCharacter : ¬first = '\'' := fun quote =>
      Bool.false_ne_true ((not_isDigit (.inr (.inl quote))).symm.trans digit)
    simp [tokenKind, noString, noCharacter, digit]
  operator := by
    intro starts
    have isStart := isOperatorStart_iff.mpr starts
    have noDigit := not_isDigit (.inr (.inr starts))
    have noString : ¬first = '"' := by
      rintro rfl
      exact absurd isStart (by decide)
    have noCharacter : ¬first = '\'' := by
      rintro rfl
      exact absurd isStart (by decide)
    obtain ⟨other, isOther, head⟩ := starts
    obtain ⟨single, isSingle, spelledSingle⟩ := Symbol.operators_head other isOther
    rw [head, Option.toList_some] at spelledSingle
    obtain ⟨symbol, found⟩ := Symbol.longestOperator?_isSome isSingle
      (show single.text.toList <+: first :: rest from
        spelledSingle ▸ List.prefix_append [first] rest)
    have longest := Symbol.isLongestOperator_of_some found
    have spelled : tokenText first rest = symbol.text := by
      apply String.toList_inj.mp
      have tail : tokenTail first rest = symbol.text.length - 1 := by
        simp [tokenTail, noString, noCharacter, noDigit, isStart, operatorTail, found]
      rw [tokenText, String.toList_ofList, tail, List.prefix_iff_eq_take.mp longest.starts,
        String.length_toList]
      have length := Symbol.operators_length symbol longest.operator
      cases size : symbol.text.length with
      | zero => simp [size] at length
      | succ size => rfl
    refine ⟨symbol, longest, ?_, spelled⟩
    simp [tokenKind, noString, noCharacter, noDigit, isStart, spelled,
      Symbol.operator?_text symbol longest.operator]
  word := by
    intro noString noCharacter noDigit noOperator
    have isNoStart : isOperatorStart first = false :=
      eq_false_of_ne_true fun starts => noOperator (isOperatorStart_iff.mp starts)
    have goesOn : (!endsWord first) = true :=
      inWord_iff.mp ⟨bare.noBlank first rfl, noOperator, noString, noCharacter⟩
    have spelled : tokenText first rest =
        String.ofList ((first :: rest).takeWhile fun character => !endsWord character) := by
      have run := List.prefix_iff_eq_take.mp
        (@List.takeWhile_prefix _ rest fun character => !endsWord character)
      rw [List.takeWhile_cons, if_pos goesOn, run]
      simp [tokenText, tokenTail, noString, noCharacter, noDigit, isNoStart, runLength]
    constructor
    · rw [spelled, String.toList_ofList]
      exact takeWhile_isMaximalRun (fun character => inWord_iff) _
    · simpa [tokenKind, noString, noCharacter, noDigit, isNoStart] using wordKind_wordKind _ _

end Scan

/-! ## Whole texts -/

/-- Tokens that follow the lexical grammar, from a byte position on over the rest of a text. -/
inductive Lexed (constants : Constants) : Nat → List Char → List Token → Prop where
  | last {position : Nat} {token : Token} :
      token.kind = .endOfText →
      token.text = "" →
      token.separator = "" →
      token.span.start = Word.ofNat position →
      Lexed constants position [] [token]
  | more {position : Nat} {first : Char} {rest left : List Char} {token : Token}
      {tokens : List Token} :
      Bare (first :: rest) →
      Classified constants (first :: rest) first token →
      token.span.start = Word.ofNat position →
      first :: rest = token.text.toList ++ token.separator.toList ++ left →
      Separates token.separator.toList left →
      Lexed constants (position + token.text.utf8ByteSize + token.separator.utf8ByteSize) left
        tokens →
      Lexed constants position (first :: rest) (token :: tokens)

/-- Scanning follows the lexical grammar. -/
theorem Scan.tokensFrom_lexed
    {constants : Constants}
    {position : Nat}
    {text : List Char}
    (bare : Bare text) :
    Lexed constants position text (tokensFrom constants position text) := by
  match text with
  | [] =>
      unfold tokensFrom
      exact .last rfl rfl rfl rfl
  | first :: rest =>
      let behind := rest.drop (tokenTail first rest)
      obtain ⟨separates, further⟩ := separatorLength_separated .between behind
      have left := @tokensFrom_lexed constants
        (position + (tokenText first rest).utf8ByteSize +
          (String.ofList (behind.take (separatorLength .between behind))).utf8ByteSize) _ further
      unfold tokensFrom
      refine .more bare (classified bare _ _) rfl ?_ ?_ left
      · simp only [String.toList_ofList, List.append_assoc, List.take_append_drop,
          List.cons_append, behind]
      · simpa using separates
termination_by text.length
decreasing_by
  simp only [List.length_drop, List.length_cons]
  omega

/-- Texts with their separators, one behind the other. -/
def spelled (tokens : List Token) : String :=
  String.join (tokens.map fun token => token.text ++ token.separator)

/--
A token of a text where it stands: the text up to it, the rest that starts with
its first character, and what is left behind its separator.
-/
structure Placed
    (constants : Constants) (source before : String) (token : Token)
    (first : Char) (rest behind : List Char) : Prop where
  whole : source.toList = before.toList ++ first :: rest
  start : token.span.start = Word.ofNat before.utf8ByteSize
  bare : Bare (first :: rest)
  classified : Classified constants (first :: rest) first token
  cut : first :: rest = token.text.toList ++ token.separator.toList ++ behind
  separates : Separates token.separator.toList behind

/-- Every token of a text that follows the lexical grammar stands in its place. -/
theorem Lexed.placed
    {constants : Constants}
    {source before : String}
    {position : Nat}
    {text : List Char}
    {tokens : List Token}
    (lexed : Lexed constants position text tokens)
    (size : position = before.utf8ByteSize)
    (whole : source.toList = before.toList ++ text)
    {index : Nat}
    {token : Token}
    (here : tokens[index]? = some token) :
    (token.kind = .endOfText → token.text = "" ∧ token.separator = "") ∧
      (token.kind ≠ .endOfText →
        ∃ first rest behind,
          Placed constants source (before ++ spelled (tokens.take index)) token first rest
            behind) := by
  induction lexed generalizing before index with
  | last kind text separator =>
      cases index with
      | zero =>
          obtain rfl := Option.some.inj here
          exact ⟨fun _ => ⟨text, separator⟩, fun notLast => absurd kind notLast⟩
      | succ index => cases here
  | @more position first rest left current tokens bare classified start cut separates _
      inductionHypothesis =>
      cases index with
      | zero =>
          obtain rfl := Option.some.inj here
          refine ⟨fun isLast => absurd isLast classified.kind_ne_endOfText, fun _ => ?_⟩
          refine ⟨first, rest, left, ?_, ?_, bare, classified, cut, separates⟩
          · simpa [spelled] using whole
          · simpa [spelled, size] using start
      | succ index =>
          have further := @inductionHypothesis (before ++ (current.text ++ current.separator))
            (by simp only [size, String.utf8ByteSize_append, Nat.add_assoc])
            (by simp [whole, cut]) index here
          simpa [spelled, String.append_assoc] using further

/--
A text is cut by the lexical grammar: its leading part is a separator, and so is
what follows each token.  Each token but the mark of the end starts with neither
a blank nor a comment, and it is what the grammar says of its first character.
-/
theorem TokenList.ofSource_placed
    (constants : Constants)
    (source : String) :
    (∃ behind, source.toList = (ofSource constants source).leading.toList ++ behind ∧
      Separates (ofSource constants source).leading.toList behind) ∧
    ∀ index token,
      (ofSource constants source).tokens[index]? = some token →
      (token.kind = .endOfText → token.text = "" ∧ token.separator = "") ∧
      (token.kind ≠ .endOfText →
        ∃ first rest behind,
          Placed constants source
            ((ofSource constants source).leading ++
              spelled ((ofSource constants source).tokens.toList.take index))
            token first rest behind) := by
  let list := ofSource constants source
  let text := source.toList.drop (Scan.separatorLength .between source.toList)
  have cut : source.toList = list.leading.toList ++ text := by
    simp [list, text, ofSource]
  obtain ⟨separates, bare⟩ := Scan.separatorLength_separated .between source.toList
  refine ⟨⟨text, cut, by simpa [ofSource] using separates⟩, fun index token here => ?_⟩
  have found : (Scan.tokensFrom constants list.leading.utf8ByteSize text)[index]? = some token := by
    rw [← List.getElem?_toArray]
    exact here
  exact (Scan.tokensFrom_lexed bare).placed rfl cut found

/-!
## What is scanned where a token starts

A token is told by the text from its start on, whatever stands in front of it.
-/

/-- The first token is spelled in front of the other ones. -/
theorem spelled_cons (token : Token) (tokens : List Token) :
    spelled (token :: tokens) = token.text ++ token.separator ++ spelled tokens := by
  simp [spelled]

namespace Scan

/-- The first character tells literals from each other and from all other tokens. -/
theorem tokenKind_cases
    (constants : Constants)
    (first : Char)
    (text : String) :
    first = '"' ∧ tokenKind constants first text = .string ∨
      first = '\'' ∧ tokenKind constants first text = .character ∨
        (first ≠ '"' ∧ first ≠ '\'' ∧ first.isDigit = true) ∧
            tokenKind constants first text = .number ∨
          tokenKind constants first text ∉ [.string, .character, .number] := by
  unfold tokenKind
  split
  case isTrue isQuote => exact .inl ⟨beq_iff_eq.mp isQuote, rfl⟩
  case isFalse noString =>
    split
    case isTrue isQuote => exact .inr (.inl ⟨beq_iff_eq.mp isQuote, rfl⟩)
    case isFalse noCharacter =>
      rw [beq_iff_eq] at noString noCharacter
      split
      case isTrue isDigit => exact .inr (.inr (.inl ⟨⟨noString, noCharacter, isDigit⟩, rfl⟩))
      case isFalse =>
        refine .inr (.inr (.inr ?_))
        split
        case isTrue => split <;> simp
        case isFalse =>
          unfold wordKind
          split
          case h_1 => simp
          case h_2 => split <;> simp

/-- The kind and the text of the first token of a text. -/
def scanned (constants : Constants) : List Char → TokenKind × String
  | [] => (.endOfText, "")
  | first :: rest => (tokenKind constants first (tokenText first rest), tokenText first rest)

/-- A token of the rest of a text is what is scanned of the text from its start on. -/
theorem tokensFrom_scanned
    {constants : Constants}
    {position index : Nat}
    {text : List Char}
    {token : Token}
    (here : (tokensFrom constants position text)[index]? = some token) :
    ∃ rest,
      text = (spelled ((tokensFrom constants position text).take index)).toList ++ rest ∧
        (token.kind, token.text) = scanned constants rest := by
  induction index generalizing position text with
  | zero =>
      refine ⟨text, by simp [spelled], ?_⟩
      cases text with
      | nil =>
          rw [tokensFrom] at here
          obtain rfl := Option.some.inj here
          rfl
      | cons first rest =>
          rw [tokensFrom] at here
          obtain rfl := Option.some.inj here
          rfl
  | succ index inductionHypothesis =>
      cases text with
      | nil =>
          rw [tokensFrom] at here
          cases here
      | cons first rest =>
          rw [tokensFrom] at here ⊢
          obtain ⟨left, isLeft, isScanned⟩ := inductionHypothesis here
          refine ⟨left, ?_, isScanned⟩
          rw [List.take_succ_cons, spelled_cons, String.toList_append, String.toList_append,
            List.append_assoc, List.append_assoc, ← isLeft, String.toList_ofList,
            String.toList_ofList, List.take_append_drop, List.cons_append, List.take_append_drop]

end Scan

/-- A token is what is scanned of its text from the start of the token on. -/
theorem TokenList.ofSource_scanned
    {constants : Constants}
    {source : String}
    {index : Nat}
    {token : Token}
    (here : (ofSource constants source).tokens[index]? = some token) :
    ∃ rest,
      source.toList =
          ((ofSource constants source).leading ++
            spelled ((ofSource constants source).tokens.toList.take index)).toList ++ rest ∧
        (token.kind, token.text) = Scan.scanned constants rest := by
  have cut : source.toList = (ofSource constants source).leading.toList ++
      source.toList.drop (Scan.separatorLength .between source.toList) := by
    simp [ofSource]
  rw [← Array.getElem?_toList] at here
  obtain ⟨rest, isRest, isScanned⟩ := Scan.tokensFrom_scanned here
  refine ⟨rest, ?_, isScanned⟩
  rw [String.toList_append, List.append_assoc, cut]
  congr 1

end BotScript
