import BotScript.Token.Link

namespace BotScript

/-!
# Tokens without loss

A token list is laid out over its text: the leading separator, then the tokens
with their separators, each one behind the one before, up to the end.  Whatever
the text is, nothing of it is lost, and every offset stands between two
characters.
-/

/-! ## Layout -/

/--
Tokens are laid out over a text from behind a part of it.  Only the mark of the
end is empty.
-/
inductive Laid (source : String) : String → List Token → Prop where
  | last
      {token : Token} :
      token.kind = .endOfText →
      token.text = "" →
      token.separator = "" →
      token.span.start.toNat = source.utf8ByteSize →
      token.span.stop.toNat = source.utf8ByteSize →
      Laid source source [token]
  | more
      {before : String}
      {token : Token}
      {rest : List Token} :
      token.text ≠ "" →
      token.span.start.toNat = before.utf8ByteSize →
      token.span.stop.toNat = (before ++ token.text).utf8ByteSize →
      Laid source (before ++ token.text ++ token.separator) rest →
      Laid source before (token :: rest)

/-- A number below the size of words is the number of its word. -/
theorem Word.toNat_ofNat
    {value : Nat}
    (fits : value < UInt32.size) :
    (Word.ofNat value).toNat = value := by
  simp [Word.ofNat, fits, UInt32.toNat_ofNat_of_lt' fits]

namespace Laid

variable {source before : String} {token next : Token} {tokens : List Token}

/-- The tokens spell what is left of the text. -/
theorem spells
    (laid : Laid source before tokens) :
    before ++ String.join (tokens.map fun token => token.text ++ token.separator) = source := by
  induction laid with
  | last _ text separator => simp [text, separator]
  | more _ _ _ _ inductionHypothesis =>
      rw [List.map_cons, String.join_cons, ← String.append_assoc, ← String.append_assoc]
      exact inductionHypothesis

/-- Some token comes next. -/
theorem ne_nil
    (laid : Laid source before tokens) :
    tokens ≠ [] := by
  cases laid <;> simp

/-- The tokens from a position on are laid out over the rest of the text. -/
theorem drop
    (laid : Laid source before tokens)
    {index : Nat}
    (inside : index < tokens.length) :
    ∃ further, Laid source further (tokens.drop index) := by
  induction laid generalizing index with
  | last kind text separator start stop =>
      obtain rfl : index = 0 := by simpa using inside
      exact ⟨_, .last kind text separator start stop⟩
  | more text start stop rest inductionHypothesis =>
      cases index with
      | zero => exact ⟨_, .more text start stop rest⟩
      | succ index => exact inductionHypothesis (by simpa using inside)

/-- The token at hand begins where the text before it ends. -/
theorem start
    (laid : Laid source before (token :: tokens)) :
    token.span.start.toNat = before.utf8ByteSize := by
  cases laid with
  | last _ _ _ start => exact start
  | more _ start => exact start

/-- The token at hand ends where its text does. -/
theorem stop
    (laid : Laid source before (token :: tokens)) :
    token.span.stop.toNat = (before ++ token.text).utf8ByteSize := by
  cases laid with
  | last _ text _ _ stop => simpa [text] using stop
  | more _ _ stop => exact stop

/-- The token and its separator are the next part of the text. -/
theorem part
    (laid : Laid source before (token :: tokens)) :
    ∃ after, source = before ++ token.text ++ token.separator ++ after := by
  have spelled := laid.spells
  rw [List.map_cons, String.join_cons, ← String.append_assoc, ← String.append_assoc] at spelled
  exact ⟨_, spelled.symm⟩

/-- The separator of the token at hand ends where it ends in the text. -/
theorem separatorEnd
    (laid : Laid source before (token :: tokens))
    (short : source.utf8ByteSize < UInt32.size) :
    token.separatorEnd.toNat = (before ++ token.text ++ token.separator).utf8ByteSize := by
  obtain ⟨after, whole⟩ := laid.part
  rw [whole] at short
  have total := laid.stop
  simp only [String.utf8ByteSize_append] at total short ⊢
  unfold Token.separatorEnd
  rw [Word.toNat_ofNat (by omega)]
  omega

/-- The next token begins where the separator of the token at hand ends. -/
theorem contiguous
    (laid : Laid source before (token :: next :: tokens))
    (short : source.utf8ByteSize < UInt32.size) :
    token.separatorEnd = next.span.start := by
  apply UInt32.toNat_inj.mp
  rw [laid.separatorEnd short]
  cases laid with
  | more _ _ _ rest => exact rest.start.symm

/-- A token that another one follows is not empty. -/
theorem start_lt_stop
    (laid : Laid source before (token :: next :: tokens)) :
    token.span.start < token.span.stop := by
  rw [UInt32.lt_iff_toNat_lt, laid.start, laid.stop, String.utf8ByteSize_append]
  cases laid with
  | more text =>
      have positive : token.text.utf8ByteSize ≠ 0 := fun empty =>
        text (String.utf8ByteSize_eq_zero_iff.mp empty)
      omega

/-- The token that no other one follows is the mark of the end. -/
theorem isLast
    (laid : Laid source before [token]) :
    token.kind = .endOfText ∧ token.text = "" ∧ token.separator = "" ∧
      token.span.start.toNat = source.utf8ByteSize ∧
      token.span.stop.toNat = source.utf8ByteSize := by
  cases laid with
  | last kind text separator start stop => exact ⟨kind, text, separator, start, stop⟩
  | more _ _ _ rest => exact absurd rfl rest.ne_nil

/-- There are no more tokens than bytes of the text, the mark of the end apart. -/
theorem length_le
    (laid : Laid source before tokens) :
    before.utf8ByteSize + tokens.length ≤ source.utf8ByteSize + 1 := by
  induction laid with
  | last => simp
  | @more before token rest text _ _ _ inductionHypothesis =>
      have positive : token.text.utf8ByteSize ≠ 0 := fun empty =>
        text (String.utf8ByteSize_eq_zero_iff.mp empty)
      simp only [String.utf8ByteSize_append] at inductionHypothesis
      rw [List.length_cons]
      omega

end Laid

/-! ## Scanning -/

/-- The two parts of a cut text make up the text. -/
theorem Scan.ofList_take_append_drop
    (text : List Char)
    (length : Nat) :
    String.ofList (text.take length) ++ String.ofList (text.drop length) = String.ofList text := by
  rw [← String.ofList_append, List.take_append_drop]

/-- The tokens of the rest of a text are laid out over it. -/
theorem Scan.tokensFrom_laid
    {constants : Constants}
    {source before : String}
    {text : List Char}
    (whole : source = before ++ String.ofList text)
    (short : source.utf8ByteSize < UInt32.size) :
    Laid source before (tokensFrom constants before.utf8ByteSize text) := by
  match text with
  | [] =>
      obtain rfl : source = before := by simpa using whole
      unfold tokensFrom
      exact .last rfl rfl rfl (Word.toNat_ofNat short) (Word.toNat_ofNat short)
  | first :: rest =>
      -- What is scanned next, its separator and what is left of the text.
      let length := tokenTail first rest
      let content := String.ofList (first :: rest.take length)
      let behind := rest.drop length
      let blank := String.ofList (behind.take (separatorLength .between behind))
      let left := behind.drop (separatorLength .between behind)
      have wholeCut : source = before ++ content ++ blank ++ String.ofList left := by
        rw [String.append_assoc, String.append_assoc, Scan.ofList_take_append_drop, whole]
        congr 1
        rw [← String.ofList_append, List.cons_append, List.take_append_drop]
      have positions :
          before.utf8ByteSize + content.utf8ByteSize + blank.utf8ByteSize ≤
            source.utf8ByteSize := by
        rw [wholeCut]
        simp only [String.utf8ByteSize_append]
        omega
      have further := @tokensFrom_laid constants _ _ _ wholeCut short
      simp only [String.utf8ByteSize_append] at further
      unfold tokensFrom
      refine .more ?_ (Word.toNat_ofNat (by omega)) ?_ further
      · exact fun empty => by simpa using congrArg String.toList empty
      · rw [String.utf8ByteSize_append]
        exact Word.toNat_ofNat (show before.utf8ByteSize + content.utf8ByteSize < _ by omega)
termination_by text.length
decreasing_by
  simp only [List.length_drop, List.length_cons]
  omega

/-- The tokens of a text are laid out behind its leading separator. -/
theorem TokenList.ofSource_laid
    (constants : Constants)
    {source : String}
    (short : source.utf8ByteSize < UInt32.size) :
    Laid source (ofSource constants source).leading (ofSource constants source).tokens.toList := by
  refine Scan.tokensFrom_laid ?_ short
  unfold ofSource
  rw [Scan.ofList_take_append_drop, String.ofList_toList]

/-! ## Links -/

namespace Link

/-- The link of a token at a position among a number of tokens. -/
def between (count index : Nat) : Link where
  previous := if index = 0 then none else some (UInt32.ofNat (index - 1))
  next := if index + 1 < count then some (UInt32.ofNat (index + 1)) else none

/-- Every token has a link. -/
theorem size_ofCount
    (count : Nat) :
    (ofCount count).size = count := by
  induction count with
  | zero => rfl
  | succ count inductionHypothesis => simp [ofCount, append, inductionHypothesis]

/-- Every token is linked to the tokens around it. -/
theorem getElem?_ofCount
    {count : Nat}
    (fits : count ≤ UInt32.size)
    {index : Nat}
    (inside : index < count) :
    (ofCount count)[index]? = some (between count index) := by
  induction count generalizing index with
  | zero => cases inside
  | succ count inductionHypothesis =>
      have former := @inductionHypothesis (Nat.le_of_succ_le fits)
      have empty : (ofCount count).isEmpty = decide (count = 0) := by
        simp [Array.isEmpty, size_ofCount]
      unfold ofCount append
      simp only [size_ofCount, empty, Array.getElem?_push, Array.size_modify,
        Array.getElem?_modify]
      rcases Nat.lt_succ_iff_lt_or_eq.mp inside with isFormer | rfl
      · rw [former isFormer, if_neg (by omega)]
        by_cases isLast : count - 1 = index
        · obtain rfl : count = index + 1 := by omega
          simp [between]
        · have goesOn : index + 1 < count := by omega
          have stillGoesOn : index + 1 < count + 1 := by omega
          simp [isLast, between, goesOn, stillGoesOn]
      · have smaller : UInt32.ofNat index - 1 = UInt32.ofNat (index - 1) ∨ index = 0 := by
          rcases Nat.eq_zero_or_pos index with isFirst | positive
          · exact .inr isFirst
          · refine .inl (UInt32.toNat_inj.mp ?_)
            rw [UInt32.toNat_sub_of_le]
            · rw [UInt32.toNat_ofNat_of_lt' (by omega), UInt32.toNat_ofNat_of_lt' (by omega)]
              rfl
            · rw [UInt32.le_iff_toNat_le, UInt32.toNat_ofNat_of_lt' (by omega)]
              exact positive
        rcases smaller with smaller | rfl
        · simp [between, smaller]
        · simp [between]

variable {count : Nat} (fits : count ≤ UInt32.size)

include fits

/-- The link under the word of a position. -/
theorem getElem?_word
    {index : Nat}
    (inside : index < count) :
    (ofCount count)[(UInt32.ofNat index).toNat]? = some (between count index) := by
  rw [UInt32.toNat_ofNat_of_lt' (by omega), getElem?_ofCount fits inside]

/-- A walk forwards meets all tokens from its start on in order. -/
theorem walk_next
    {bound start : Nat}
    (inside : start < count)
    (enough : count - start ≤ bound) :
    walk (ofCount count) Link.next bound (some (UInt32.ofNat start)) =
      (List.range' start (count - start)).map UInt32.ofNat := by
  induction bound generalizing start with
  | zero => omega
  | succ bound inductionHypothesis =>
      obtain ⟨left, isLeft⟩ : ∃ left, count - start = left + 1 := ⟨count - start - 1, by omega⟩
      rw [isLeft, List.range'_succ, List.map_cons, walk, getElem?_word fits inside]
      congr 1
      by_cases goesOn : start + 1 < count
      · have rest := inductionHypothesis goesOn (by omega)
        simpa [between, goesOn, show count - (start + 1) = left by omega] using rest
      · obtain rfl : left = 0 := by omega
        cases bound <;> simp [between, goesOn, walk]

/-- A walk backwards meets all tokens up to its start in reverse order. -/
theorem walk_previous
    {bound start : Nat}
    (inside : start < count)
    (enough : start < bound) :
    walk (ofCount count) Link.previous bound (some (UInt32.ofNat start)) =
      (List.range (start + 1)).reverse.map UInt32.ofNat := by
  induction bound generalizing start with
  | zero => omega
  | succ bound inductionHypothesis =>
      rw [List.range_succ, List.reverse_concat, List.map_cons, walk, getElem?_word fits inside]
      congr 1
      cases start with
      | zero => cases bound <;> simp [between, walk]
      | succ start => simpa [between] using inductionHypothesis (by omega) (by omega)

end Link

/-! ## Token lists -/

/-- Texts that are appended one behind the other. -/
private theorem foldl_texts
    (tokens : List Token)
    (start : String) :
    tokens.foldl (fun text token => text ++ token.text ++ token.separator) start =
      start ++ String.join (tokens.map fun token => token.text ++ token.separator) := by
  induction tokens generalizing start with
  | nil => simp
  | cons token tokens inductionHypothesis =>
      rw [List.foldl_cons, inductionHypothesis, List.map_cons, String.join_cons]
      simp only [String.append_assoc]

/-- A token and its separator stand at their offsets, which lie between characters. -/
structure Token.StandsIn (token : Token) (source : String) : Prop where
  cut :
    ∃ before after,
      source = before ++ token.text ++ token.separator ++ after ∧
        before.utf8ByteSize = token.span.start.toNat ∧
        (before ++ token.text).utf8ByteSize = token.span.stop.toNat ∧
        (before ++ token.text ++ token.separator).utf8ByteSize = token.separatorEnd.toNat
  start : (⟨token.span.start.toNat⟩ : String.Pos.Raw).IsValid source
  stop : (⟨token.span.stop.toNat⟩ : String.Pos.Raw).IsValid source
  separatorEnd : (⟨token.separatorEnd.toNat⟩ : String.Pos.Raw).IsValid source

namespace TokenList

/-- The list keeps its text, each part of it at its offset, and links its tokens in order. -/
structure Lossless (list : TokenList) : Prop where
  /-- The leading separator and the tokens with their separators are the text. -/
  spells :
    list.leading ++ String.join (list.tokens.toList.map fun token =>
      token.text ++ token.separator) = list.source
  leading :
    list.leading.utf8ByteSize = list.leadingEnd.toNat ∧
      (⟨list.leadingEnd.toNat⟩ : String.Pos.Raw).IsValid list.source
  first :
    ∃ token, list.tokens[0]? = some token ∧ list.leadingEnd = token.span.start
  contiguous :
    ∀ (index : Nat) token next,
      list.tokens[index]? = some token → list.tokens[index + 1]? = some next →
        token.separatorEnd = next.span.start
  /-- Every token but the last one takes up room. -/
  wide :
    ∀ (index : Nat) token,
      list.tokens[index]? = some token → index + 1 < list.size →
        token.span.start < token.span.stop
  /-- The last token marks the end of the text. -/
  ends :
    ∃ token,
      list.tokens[list.size - 1]? = some token ∧ token.kind = .endOfText ∧
        token.span.start.toNat = list.source.utf8ByteSize ∧
        token.span.stop.toNat = list.source.utf8ByteSize ∧
        token.separatorEnd.toNat = list.source.utf8ByteSize
  stands :
    ∀ token ∈ list.tokens, token.StandsIn list.source
  /-- However long one walks along the links, one meets all tokens in order, and back again. -/
  walks :
    ∀ bound, list.size ≤ bound →
      Link.walk list.links Link.next bound list.first? =
          (List.range list.size).map UInt32.ofNat ∧
        Link.walk list.links Link.previous bound (some list.last) =
          (List.range list.size).reverse.map UInt32.ofNat
  reconstructs : list.reconstruct = list.source

section

variable {list : TokenList} (laid : Laid list.source list.leading list.tokens.toList)
  (short : list.source.utf8ByteSize < UInt32.size)

include laid

omit laid in
/-- The tokens are as many as the list has. -/
private theorem length_toList :
    list.tokens.toList.length = list.size :=
  Array.length_toList

/-- The tokens from one of them on are laid out over the rest of the text. -/
private theorem laid_at
    {index : Nat}
    {token : Token}
    (found : list.tokens[index]? = some token) :
    ∃ before, Laid list.source before (token :: list.tokens.toList.drop (index + 1)) := by
  rw [← Array.getElem?_toList] at found
  obtain ⟨inside, isThere⟩ := List.getElem?_eq_some_iff.mp found
  obtain ⟨before, further⟩ := laid.drop inside
  rw [List.drop_eq_getElem_cons inside, isThere] at further
  exact ⟨before, further⟩

/-- A list that is laid out has some token. -/
private theorem size_pos :
    0 < list.size := by
  rw [← length_toList]
  exact List.length_pos_iff.mpr laid.ne_nil

include short

/-- There are no more tokens than words. -/
private theorem size_le :
    list.size ≤ UInt32.size := by
  have bytes := laid.length_le
  have length : list.tokens.toList.length = list.size := length_toList
  omega

/-- A token and its separator stand where their offsets say. -/
private theorem standsIn
    {token : Token}
    (member : token ∈ list.tokens) :
    token.StandsIn list.source := by
  obtain ⟨index, found⟩ := Array.mem_iff_getElem?.mp member
  obtain ⟨before, further⟩ := laid_at laid found
  obtain ⟨after, whole⟩ := further.part
  have ends := further.separatorEnd short
  refine ⟨⟨before, after, whole, further.start.symm, further.stop.symm, ends.symm⟩, ?_, ?_, ?_⟩
  · rw [further.start, String.Pos.Raw.isValid_iff_exists_append]
    exact ⟨before, token.text ++ token.separator ++ after,
      by simpa only [String.append_assoc] using whole, rfl⟩
  · rw [further.stop, String.Pos.Raw.isValid_iff_exists_append]
    exact ⟨before ++ token.text, token.separator ++ after,
      by simpa only [String.append_assoc] using whole, rfl⟩
  · rw [ends, String.Pos.Raw.isValid_iff_exists_append]
    exact ⟨before ++ token.text ++ token.separator, after, whole, rfl⟩

/-- The walks along the links in both directions. -/
private theorem walks
    {bound : Nat}
    (enough : list.size ≤ bound) :
    Link.walk list.links Link.next bound list.first? =
        (List.range list.size).map UInt32.ofNat ∧
      Link.walk list.links Link.previous bound (some list.last) =
        (List.range list.size).reverse.map UInt32.ofNat := by
  have positive := size_pos laid
  have fits := size_le laid short
  have first : list.first? = some (UInt32.ofNat 0) := by
    have filled : list.tokens.isEmpty = false := by
      rw [Array.isEmpty_eq_false_iff]
      rintro empty
      simp [size, empty] at positive
    simp [first?, filled]
  constructor
  · rw [first, links, Link.walk_next fits positive (by omega)]
    rw [List.range_eq_range', Nat.sub_zero]
  · rw [last, links, Link.walk_previous fits (by omega) (by omega)]
    rw [Nat.sub_add_cancel positive]

/-- What is joined along the links is the text. -/
private theorem reconstruct_eq :
    list.reconstruct = list.source := by
  have fits := size_le laid short
  have forwards : list.positions = (List.range list.size).map UInt32.ofNat :=
    (walks laid short (Nat.le_refl _)).1
  -- The text joined along the first links is that of the first tokens.
  have joined (count : Nat) (inside : count ≤ list.size) :
      (List.range count).foldl (fun text index => list.appendToken text (UInt32.ofNat index))
          list.leading =
        (list.tokens.toList.take count).foldl
          (fun text token => text ++ token.text ++ token.separator) list.leading := by
    induction count with
    | zero => rfl
    | succ count inductionHypothesis =>
        rw [List.range_succ, List.foldl_append, inductionHypothesis (by omega), List.take_add_one,
          List.foldl_append, Array.getElem?_toList]
        simp only [List.foldl_cons, List.foldl_nil]
        rw [appendToken, UInt32.toNat_ofNat_of_lt' (by omega)]
        cases list.tokens[count]? <;> rfl
  rw [reconstruct, forwards, List.foldl_map, joined _ (Nat.le_refl _),
    List.take_of_length_le (Nat.le_of_eq length_toList), foldl_texts, laid.spells]

end

/--
Scanning loses nothing.  This holds of any text whose offsets are words, however
its comments and literals are malformed.
-/
theorem ofSource_lossless
    (constants : Constants)
    {source : String}
    (short : source.utf8ByteSize < UInt32.size) :
    (ofSource constants source).source = source ∧ (ofSource constants source).Lossless := by
  have laid := ofSource_laid constants short
  have whole : (ofSource constants source).source = source := rfl
  generalize ofSource constants source = list at laid whole
  subst whole
  have positive := size_pos laid
  refine ⟨rfl, laid.spells, ?_, ?_, ?_, ?_, ?_, fun token member => standsIn laid short member,
    fun bound enough => walks laid short enough, reconstruct_eq laid short⟩
  · obtain ⟨after, whole⟩ : ∃ after, list.leading ++ after = list.source := ⟨_, laid.spells⟩
    have inside : list.leading.utf8ByteSize < UInt32.size := by
      rw [← whole, String.utf8ByteSize_append] at short
      omega
    rw [leadingEnd, Word.toNat_ofNat inside, String.Pos.Raw.isValid_iff_exists_append]
    exact ⟨rfl, list.leading, after, whole.symm, rfl⟩
  · obtain ⟨token, rest, cons⟩ := List.exists_cons_of_ne_nil laid.ne_nil
    have found : list.tokens[0]? = some token := by
      rw [← Array.getElem?_toList, cons]
      rfl
    rw [cons] at laid
    refine ⟨token, found, UInt32.toNat_inj.mp ?_⟩
    rw [laid.start, leadingEnd, Word.toNat_ofNat]
    rw [← laid.start]
    exact UInt32.toNat_lt_size _
  · intro index token next found follows
    obtain ⟨before, further⟩ := laid_at laid found
    rw [← Array.getElem?_toList] at follows
    obtain ⟨inside, isThere⟩ := List.getElem?_eq_some_iff.mp follows
    rw [List.drop_eq_getElem_cons inside, isThere] at further
    exact further.contiguous short
  · intro index token found goesOn
    obtain ⟨before, further⟩ := laid_at laid found
    have inside : index + 1 < list.tokens.toList.length := by simpa [size] using goesOn
    rw [List.drop_eq_getElem_cons inside] at further
    exact further.start_lt_stop
  · have inside : list.size - 1 < list.tokens.size := Nat.sub_lt positive Nat.one_pos
    have found := Array.getElem?_eq_getElem inside
    obtain ⟨before, further⟩ := laid_at laid found
    rw [Nat.sub_add_cancel positive, List.drop_of_length_le (Nat.le_of_eq length_toList)]
      at further
    obtain ⟨kind, text, separator, start, stop⟩ := further.isLast
    refine ⟨_, found, kind, start, stop, ?_⟩
    rw [Token.separatorEnd, stop, separator, String.utf8ByteSize_empty, Nat.add_zero,
      Word.toNat_ofNat short]

/-- Quotes, backslashes and comments that nothing closes, with a null character among them. -/
theorem ofSource_lossless_malformed :
    ("/*é*/ x\"\\\u0000 '\\u00 0x. 1e+ \"é\\" : String).utf8ByteSize < UInt32.size ∧
      (ofSource Constants.errorCodes
          ("/*é*/ x\"\\\u0000 '\\u00 0x. 1e+ \"é\\" : String)).Lossless :=
  have short :
      ("/*é*/ x\"\\\u0000 '\\u00 0x. 1e+ \"é\\" : String).utf8ByteSize < UInt32.size := by
    decide
  ⟨short, (ofSource_lossless Constants.errorCodes short).2⟩

end TokenList

end BotScript
