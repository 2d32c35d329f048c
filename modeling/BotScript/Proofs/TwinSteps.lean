import BotScript.Proofs.CompilationSteps
import BotScript.Proofs.TreeShapes

namespace BotScript

/-!
# Twin compilations

Two texts that differ in blanks and comments have tokens of the same kinds and
texts at different places.  As tokens stand in order, a span that covers some of
them in one list has a counterpart in the other list, and so has the span that
covers two such spans.

Two compilations over token lists that read the same go through the same
positions and scopes, with trees of the same shape.  A step of both ends with
corresponding results, or with the same error at corresponding places.

Most steps have equal results.  This is a class, so that it is found for a step
from the steps it consists of.
-/

/-! ## Tokens in order -/

/-- A later position has no smaller word. -/
theorem Word.ofNat_mono
    {position next : Nat}
    (forth : position ≤ next) :
    Word.ofNat position ≤ Word.ofNat next := by
  rw [UInt32.le_iff_toNat_le]
  unfold Word.ofNat
  split
  · next fits =>
    split
    · next nextFits =>
      rw [UInt32.toNat_ofNat_of_lt' fits, UInt32.toNat_ofNat_of_lt' nextFits]
      exact forth
    · rw [UInt32.toNat_ofNat_of_lt' fits]
      exact Nat.le_sub_one_of_lt fits
  · next large =>
    have nextLarge : ¬next < UInt32.size := fun nextFits =>
      large (Nat.lt_of_le_of_lt forth nextFits)
    exact Nat.le_of_eq (by rw [if_neg nextLarge])

/-- One token neither starts nor ends behind another one. -/
def Token.InOrder (token next : Token) : Prop :=
  token.span.start ≤ next.span.start ∧ token.span.stop ≤ next.span.stop

/-- The tokens of a text stand in order, none of them before the position they start at. -/
theorem Scan.tokensFrom_inOrder
    (constants : Constants)
    (position : Nat)
    (text : List Char) :
    (tokensFrom constants position text).Pairwise Token.InOrder ∧
      ∀ token ∈ tokensFrom constants position text,
        Word.ofNat position ≤ token.span.start ∧ Word.ofNat position ≤ token.span.stop := by
  match text with
  | [] =>
      unfold tokensFrom
      simp [Span.ofRange]
  | first :: rest =>
      let length := tokenTail first rest
      let content := String.ofList (first :: rest.take length)
      let behind := rest.drop length
      let separatorSize := separatorLength .between behind
      let stop := position + content.utf8ByteSize
      let further := stop + (String.ofList (behind.take separatorSize)).utf8ByteSize
      have ⟨ordered, bounded⟩ :=
        tokensFrom_inOrder constants further (behind.drop separatorSize)
      have toStop : Word.ofNat position ≤ Word.ofNat stop := Word.ofNat_mono (Nat.le_add_right ..)
      have toFurther : Word.ofNat stop ≤ Word.ofNat further :=
        Word.ofNat_mono (Nat.le_add_right ..)
      unfold tokensFrom
      refine ⟨List.pairwise_cons.mpr ⟨fun token member => ?_, ordered⟩,
        List.forall_mem_cons.mpr ⟨⟨UInt32.le_refl _, toStop⟩, fun token member => ?_⟩⟩
      · obtain ⟨start, end'⟩ := bounded token member
        exact ⟨UInt32.le_trans (UInt32.le_trans toStop toFurther) start,
          UInt32.le_trans toFurther end'⟩
      · obtain ⟨start, end'⟩ := bounded token member
        exact ⟨UInt32.le_trans (UInt32.le_trans toStop toFurther) start,
          UInt32.le_trans (UInt32.le_trans toStop toFurther) end'⟩
termination_by text.length
decreasing_by
  simp only [List.length_drop, List.length_cons]
  omega

/-- The tokens of a list stand in order. -/
def TokenList.Ordered (list : TokenList) : Prop :=
  list.tokens.toList.Pairwise Token.InOrder

/-- The tokens of a program text stand in order. -/
theorem TokenList.ofSource_ordered (constants : Constants) (source : String) :
    (ofSource constants source).Ordered :=
  (Scan.tokensFrom_inOrder _ _ _).1

/-! ## Spans over the same tokens -/

/-- What is read of a token: its kind and its text. -/
def Token.word (token : Token) : TokenKind × String :=
  (token.kind, token.text)

/-- What is read of a list of tokens. -/
def TokenList.words (list : TokenList) : List (TokenKind × String) :=
  list.tokens.toList.map Token.word

/-- Lists that read the same have as many tokens. -/
theorem TokenList.size_of_words
    {list other : TokenList}
    (words : other.words = list.words) :
    other.size = list.size := by
  simpa [TokenList.words, TokenList.size] using congrArg List.length words

/-- The span from the start of one token to the end of another one. -/
def TokenList.spanBetween? (list : TokenList) (first last : Nat) : Option Span := do
  return ⟨(← list.tokens[first]?).span.start, (← list.tokens[last]?).span.stop⟩

/-- Two spans over the same tokens of two lists. -/
def TokenList.Spans (list other : TokenList) (left right : Span) : Prop :=
  ∃ first last, first ≤ last ∧
    list.spanBetween? first last = some left ∧ other.spanBetween? first last = some right

/-- Two places of two lists: spans over the same tokens, or both of them no part of the text. -/
def TokenList.Places (list other : TokenList) (left right : Span) : Prop :=
  left = .none ∧ right = .none ∨ list.Spans other left right

namespace TokenList

variable {list other : TokenList}

/-- A token that does not stand behind another one neither starts nor ends behind it. -/
theorem Ordered.inOrder
    (ordered : list.Ordered)
    {position next : Nat}
    (forth : position ≤ next)
    {token later : Token}
    (found : list.tokens[position]? = some token)
    (isNext : list.tokens[next]? = some later) :
    token.InOrder later := by
  obtain ⟨inside, rfl⟩ := Array.getElem?_eq_some_iff.mp found
  obtain ⟨nextInside, rfl⟩ := Array.getElem?_eq_some_iff.mp isNext
  rcases Nat.lt_or_eq_of_le forth with before | rfl
  · exact List.pairwise_iff_getElem.mp ordered position next inside nextInside before
  · exact ⟨UInt32.le_refl _, UInt32.le_refl _⟩

/-- The span of a single token. -/
theorem spanBetween?_self
    {position : Nat}
    {token : Token}
    (found : list.tokens[position]? = some token) :
    list.spanBetween? position position = some token.span := by
  simp [spanBetween?, found]

/-- A span between tokens starts at one of them and ends at the other one. -/
theorem spanBetween?_eq_some
    {first last : Nat}
    {span : Span}
    (between : list.spanBetween? first last = some span) :
    ∃ token later, list.tokens[first]? = some token ∧ list.tokens[last]? = some later ∧
      span = ⟨token.span.start, later.span.stop⟩ := by
  unfold spanBetween? at between
  cases found : list.tokens[first]? with
  | none => simp [found] at between
  | some token =>
      cases isLast : list.tokens[last]? with
      | none => simp [found, isLast] at between
      | some later => exact ⟨token, later, rfl, rfl, by simpa [found, isLast] using between.symm⟩

/-- The spans over two ranges of tokens are covered by the span over both ranges. -/
theorem Ordered.merge
    (ordered : list.Ordered)
    {first last start stop : Nat}
    {left right : Span}
    (isLeft : list.spanBetween? first last = some left)
    (isRight : list.spanBetween? start stop = some right) :
    list.spanBetween? (min first start) (max last stop) = some (left.merge right) := by
  obtain ⟨token, later, found, isLater, rfl⟩ := spanBetween?_eq_some isLeft
  obtain ⟨other, further, isOther, isFurther, rfl⟩ := spanBetween?_eq_some isRight
  have starts :
      ∃ earliest, list.tokens[min first start]? = some earliest ∧
        earliest.span.start = min token.span.start other.span.start := by
    rcases Nat.le_total first start with forth | back
    · refine ⟨token, by rw [Nat.min_eq_left forth, found], ?_⟩
      exact (if_pos (ordered.inOrder forth found isOther).1).symm
    · refine ⟨other, by rw [Nat.min_eq_right back, isOther], ?_⟩
      have notBefore := (ordered.inOrder back isOther found).1
      exact (ite_eq_right_iff.mpr fun same => UInt32.le_antisymm same notBefore).symm
  have stops :
      ∃ latest, list.tokens[max last stop]? = some latest ∧
        latest.span.stop = max later.span.stop further.span.stop := by
    rcases Nat.le_total last stop with forth | back
    · refine ⟨further, by rw [Nat.max_eq_right forth, isFurther], ?_⟩
      exact (if_pos (ordered.inOrder forth isLater isFurther).2).symm
    · refine ⟨later, by rw [Nat.max_eq_left back, isLater], ?_⟩
      have notBehind := (ordered.inOrder back isFurther isLater).2
      exact (ite_eq_right_iff.mpr fun same => UInt32.le_antisymm notBehind same).symm
  obtain ⟨earliest, isEarliest, start⟩ := starts
  obtain ⟨latest, isLatest, stop⟩ := stops
  simp [spanBetween?, isEarliest, isLatest, start, stop, Span.merge]

end TokenList

/-! ## Two readings of one program -/

/--
Two token lists that read the same and stand in order, and a registry against
which both are compiled.
-/
structure Twins where
  list : TokenList
  other : TokenList
  registry : Registry
  words : other.words = list.words
  ordered : list.Ordered
  otherOrdered : other.Ordered
  /-- The mark of the end is not the only token. -/
  several : 1 < list.size

namespace Twins

variable (twins : Twins)

/-- What the compilation of the first list reads. -/
def first : CompileContext :=
  ⟨twins.list.tokens, twins.registry⟩

/-- What the compilation of the second list reads. -/
def second : CompileContext :=
  ⟨twins.other.tokens, twins.registry⟩

@[simp]
theorem registry_first : twins.first.registry = twins.registry :=
  rfl

@[simp]
theorem registry_second : twins.second.registry = twins.registry :=
  rfl

/-- Spans over the same tokens of both lists. -/
abbrev Spans (left right : Span) : Prop :=
  twins.list.Spans twins.other left right

/-- Corresponding places of both lists. -/
abbrev Places (left right : Span) : Prop :=
  twins.list.Places twins.other left right

/-- Both lists have the same number of tokens. -/
theorem size_eq : twins.second.tokens.size = twins.first.tokens.size :=
  TokenList.size_of_words twins.words

/-- The same is read at a position of both lists. -/
theorem word_eq (position : Nat) :
    (twins.second.token position).word = (twins.first.token position).word := by
  have found :
      (twins.other.tokens[position]?).map Token.word =
        (twins.list.tokens[position]?).map Token.word := by
    simpa [TokenList.words] using congrArg (·[position]?) twins.words
  unfold CompileContext.token first second
  cases isFirst : twins.list.tokens[position]? with
  | none =>
      rw [isFirst, Option.map_none, Option.map_eq_none_iff] at found
      rw [found]
  | some token =>
      rw [isFirst, Option.map_some, Option.map_eq_some_iff] at found
      obtain ⟨other, isSecond, same⟩ := found
      rw [isSecond]
      exact same

/-- The tokens at a position are of the same kind. -/
theorem kind_eq (position : Nat) :
    (twins.second.token position).kind = (twins.first.token position).kind :=
  congrArg Prod.fst (twins.word_eq position)

/-- The tokens at a position have the same text. -/
theorem text_eq (position : Nat) :
    (twins.second.token position).text = (twins.first.token position).text :=
  congrArg Prod.snd (twins.word_eq position)

variable {twins}

/-- The tokens at a position cover corresponding spans. -/
theorem spans_token
    {position : Nat}
    (inside : position < twins.first.tokens.size) :
    twins.Spans (twins.first.token position).span (twins.second.token position).span := by
  have other : position < twins.second.tokens.size := by rwa [twins.size_eq]
  refine ⟨position, position, Nat.le_refl _, ?_, ?_⟩
  · have found := Array.getElem?_eq_getElem inside
    simp only [CompileContext.token, found]
    exact TokenList.spanBetween?_self found
  · have found := Array.getElem?_eq_getElem other
    simp only [CompileContext.token, found]
    exact TokenList.spanBetween?_self found

/-- Corresponding spans cover corresponding spans together. -/
theorem Spans.merge
    {left right further other : Span}
    (spans : twins.Spans left right)
    (others : twins.Spans further other) :
    twins.Spans (left.merge further) (right.merge other) := by
  obtain ⟨first, last, forth, isLeft, isRight⟩ := spans
  obtain ⟨start, stop, further, isFurther, isOther⟩ := others
  exact ⟨min first start, max last stop, by omega, twins.ordered.merge isLeft isFurther,
    twins.otherOrdered.merge isRight isOther⟩

end Twins

/-! ## Twin compilations -/

/-- Entries at one position of two tables have related spans. -/
def Along
    {α : Type}
    (relate : Span → Span → Prop) (look : α → Span) (table other : Array α) : Prop :=
  ∀ (index : Nat) (entry twin : α), table[index]? = some entry → other[index]? = some twin →
    relate (look entry) (look twin)

namespace Along

variable {α : Type} {relate : Span → Span → Prop} {look : α → Span} {table other : Array α}

/-- There is nothing in empty tables. -/
theorem empty : Along relate look #[] other := by
  intro index entry twin found
  simp at found

/-- Entries are added behind both tables. -/
theorem append
    {added others : Array α}
    (along : Along relate look table other)
    (sizes : other.size = table.size)
    (related : ∀ last ∈ added, ∀ twin ∈ others, relate (look last) (look twin)) :
    Along relate look (table ++ added) (other ++ others) := by
  intro index entry twin found isTwin
  rw [Array.getElem?_append] at found isTwin
  rw [sizes] at isTwin
  by_cases isOld : index < table.size
  · rw [if_pos isOld] at found isTwin
    exact along index entry twin found isTwin
  · rw [if_neg isOld] at found isTwin
    exact related entry (Array.mem_of_getElem? found) twin (Array.mem_of_getElem? isTwin)

/-- An entry is pushed onto both tables. -/
theorem push
    {last twin : α}
    (along : Along relate look table other)
    (sizes : other.size = table.size)
    (related : relate (look last) (look twin)) :
    Along relate look (table.push last) (other.push twin) := by
  rw [Array.push_eq_append, Array.push_eq_append]
  exact along.append sizes (by simpa using related)

/-- Every entry of a table stands where one with its span stood before. -/
def Stays (look : α → Span) (table after : Array α) : Prop :=
  ∀ (index : Nat) (entry : α), after[index]? = some entry →
    ∃ old, table[index]? = some old ∧ look entry = look old

/-- An entry is changed, but not its span. -/
theorem Stays.modify
    {change : α → α}
    (keeps : ∀ entry, look (change entry) = look entry)
    (index : Nat) :
    Stays look table (table.modify index change) := by
  intro position entry found
  rw [Array.getElem?_modify] at found
  split at found
  · obtain ⟨old, isOld, rfl⟩ := Option.map_eq_some_iff.mp found
    exact ⟨old, isOld, keeps old⟩
  · exact ⟨entry, found, rfl⟩

/-- The entries are changed, but not their spans. -/
theorem Stays.mapIdx
    {change : Nat → α → α}
    (keeps : ∀ index entry, look (change index entry) = look entry) :
    Stays look table (table.mapIdx change) := by
  intro position entry found
  rw [Array.getElem?_mapIdx] at found
  obtain ⟨old, isOld, rfl⟩ := Option.map_eq_some_iff.mp found
  exact ⟨old, isOld, keeps position old⟩

/-- The spans of both tables stay. -/
theorem stays
    {after next : Array α}
    (along : Along relate look table other)
    (stays : Stays look table after)
    (otherStays : Stays look other next) :
    Along relate look after next := by
  intro index entry twin found isTwin
  obtain ⟨old, isOld, same⟩ := stays index entry found
  obtain ⟨oldTwin, isOldTwin, sameTwin⟩ := otherStays index twin isTwin
  rw [same, sameTwin]
  exact along index old oldTwin isOld isOldTwin

end Along

/-- The parts of two trees are at corresponding places. -/
structure Twins.Placed (twins : Twins) (tree other : Tree) : Prop where
  exprs : Along twins.Spans Expr.span tree.exprs other.exprs
  stmts : Along twins.Places Stmt.span tree.stmts other.stmts
  functions : Along twins.Places FunctionDef.span tree.functions other.functions
  classes : Along twins.Places ClassDef.span tree.classes other.classes

/--
The two compilations are at one position with one scope.  Their trees have the
same shape, with their parts at corresponding places.
-/
structure CompileState.Twin
    (twins : Twins) (least : Nat) (state : CompileState) (other : Tree) : Prop where
  shape : other.shape = state.tree.shape
  placed : twins.Placed state.tree other
  /--
  No step goes back behind this position.  From one on there is a token in front of
  the current one, at which a span can end.
  -/
  least : least ≤ state.position
  inside : state.position < twins.first.tokens.size

/-- The second compilation, whose tree is another one. -/
def CompileState.withTree (state : CompileState) (other : Tree) : CompileState :=
  { state with tree := other }

@[simp]
theorem CompileState.tree_withTree (state : CompileState) (other : Tree) :
    (state.withTree other).tree = other :=
  rfl

/-- An expression that has been added. -/
def CompileState.Issued (state : CompileState) (id : ExprId) : Prop :=
  id.index < state.tree.exprs.size

/-- No expression is lost. -/
def CompileState.Leads (before after : CompileState) : Prop :=
  before.tree.exprs.size ≤ after.tree.exprs.size

/-- An expression that has been added stays there. -/
theorem CompileState.Leads.issued
    {before after : CompileState}
    {id : ExprId}
    (leads : before.Leads after)
    (issued : before.Issued id) :
    after.Issued id :=
  Nat.lt_of_lt_of_le issued leads

/-- Both compilations move to the same position. -/
theorem CompileState.Twin.moved
    {twins : Twins}
    {least low position : Nat}
    {state : CompileState}
    {other : Tree}
    (corresponds : state.Twin twins least other)
    (reached : low ≤ position)
    (inside : position < twins.first.tokens.size) :
    CompileState.Twin twins low { state with position } other :=
  { corresponds with
    least := reached
    inside }

namespace Compile

variable {α β γ δ σ τ : Type} {twins : Twins} {least : Nat} {state : CompileState} {other : Tree}

/-- How a step of both compilations ends. -/
inductive Outcomes
    (twins : Twins) (least : Nat) (state : CompileState) (post : CompileState → α → β → Prop) :
    Except CompileError (α × CompileState) → Except CompileError (β × CompileState) → Prop where
  | accepted
      {after : CompileState}
      {other : Tree}
      {value : α}
      {result : β} :
      after.Twin twins least other →
      state.Leads after →
      post after value result →
      Outcomes twins least state post (.ok (value, after)) (.ok (result, after.withTree other))
  | refused
      {code : ErrorCode}
      {left right : Span} :
      twins.Places left right →
      Outcomes twins least state post (.error ⟨code, left⟩) (.error ⟨code, right⟩)

/-- Two steps from corresponding states end with corresponding results. -/
def Alike
    (twins : Twins) (least : Nat) (state : CompileState) (other : Tree)
    (post : CompileState → α → β → Prop) (step : Compile α) (twin : Compile β) :
    Prop :=
  state.Twin twins least other →
    Outcomes twins least state post (step twins.first state)
      (twin twins.second (state.withTree other))

namespace Alike

variable {post : CompileState → γ → δ → Prop}

/-! ## Steps of the monad -/

/-- Results that need no step. -/
theorem pure
    {value : γ}
    {result : δ}
    (holds : post state value result) :
    Alike twins least state other post (Pure.pure value) (Pure.pure result) :=
  fun twin => .accepted twin (Nat.le_refl _) holds

/-- Two steps and what follows them. -/
theorem bind
    {M : CompileState → α → β → Prop}
    {step : Compile α}
    {twin : Compile β}
    {next : α → Compile γ}
    {after : β → Compile δ}
    (first : Alike twins least state other M step twin)
    (rest : ∀ between tree value result, state.Leads between → M between value result →
      Alike twins least between tree post (next value) (after result)) :
    Alike twins least state other post (step >>= next) (twin >>= after) := by
  intro corresponds
  change Outcomes _ _ _ _
    (step twins.first state >>= fun result => next result.1 twins.first result.2)
    (twin twins.second (state.withTree other) >>= fun result =>
      after result.1 twins.second result.2)
  have outcomes := first corresponds
  revert outcomes
  generalize step twins.first state = taken, twin twins.second (state.withTree other) = taken'
  rintro (⟨still, leads, holds⟩ | places)
  · next between tree value result =>
    have further := rest between tree value result leads holds still
    change Outcomes _ _ _ _ (next value twins.first between)
      (after result twins.second (between.withTree tree))
    revert further
    generalize next value twins.first between = ended,
      after result twins.second (between.withTree tree) = ended'
    rintro (⟨last, goesOn, meets⟩ | places)
    · exact .accepted last (Nat.le_trans leads goesOn) meets
    · exact .refused places
  · exact .refused places

/-- A condition that says less of the results. -/
theorem weaken
    {M : CompileState → γ → δ → Prop}
    {step : Compile γ}
    {twin : Compile δ}
    (alike : Alike twins least state other M step twin)
    (holds : ∀ after value result, state.Leads after → M after value result →
      post after value result) :
    Alike twins least state other post step twin := by
  intro corresponds
  have outcomes := alike corresponds
  revert outcomes
  generalize step twins.first state = taken, twin twins.second (state.withTree other) = taken'
  rintro (⟨still, leads, meets⟩ | places)
  · exact .accepted still leads (holds _ _ _ leads meets)
  · exact .refused places

/-- A change of the results. -/
theorem map
    {M : CompileState → α → β → Prop}
    {change : α → γ}
    {changed : β → δ}
    {step : Compile α}
    {twin : Compile β}
    (alike : Alike twins least state other M step twin)
    (holds : ∀ after value result, state.Leads after → M after value result →
      post after (change value) (changed result)) :
    Alike twins least state other post (change <$> step) (changed <$> twin) := by
  rw [map_eq_pure_bind, map_eq_pure_bind]
  exact alike.bind fun after _ value result leads meets =>
    pure (holds after value result leads meets)

/-- The two compilations correspond. -/
theorem withTwin
    {step : Compile γ}
    {twin : Compile δ}
    (alike : state.Twin twins least other → Alike twins least state other post step twin) :
    Alike twins least state other post step twin :=
  fun corresponds => alike corresponds corresponds

/-- Behind a position that both have reached, no step goes back behind it. -/
theorem raise
    {low : Nat}
    {step : Compile γ}
    {twin : Compile δ}
    (lower : low ≤ least)
    (reached : least ≤ state.position)
    (alike : Alike twins least state other post step twin) :
    Alike twins low state other post step twin := by
  intro corresponds
  have outcomes := alike { corresponds with least := reached }
  revert outcomes
  generalize step twins.first state = taken, twin twins.second (state.withTree other) = taken'
  rintro (⟨still, leads, meets⟩ | places)
  · exact .accepted { still with least := Nat.le_trans lower still.least } leads meets
  · exact .refused places

/-- What is read without a change of the state. -/
theorem reading
    {step : Compile α}
    {twin : Compile β}
    {value : α}
    {result : β}
    {next : α → Compile γ}
    {after : β → Compile δ}
    (reads : step twins.first state = .ok (value, state))
    (readsTwin : twin twins.second (state.withTree other) = .ok (result, state.withTree other))
    (rest : Alike twins least state other post (next value) (after result)) :
    Alike twins least state other post (step >>= next) (twin >>= after) := by
  intro corresponds
  change Outcomes _ _ _ _
    (step twins.first state >>= fun result => next result.1 twins.first result.2)
    (twin twins.second (state.withTree other) >>= fun result =>
      after result.1 twins.second result.2)
  rw [reads, readsTwin]
  exact rest corresponds

/-! ## Errors -/

/-- An error at corresponding places. -/
theorem failAt
    {code : ErrorCode}
    {left right : Span}
    (places : twins.Places left right) :
    Alike twins least state other post (Compile.failAt code left) (Compile.failAt code right) :=
  fun _ => .refused places

/-- After an error nothing follows. -/
theorem failedThen
    {code : ErrorCode}
    {left right : Span}
    (places : twins.Places left right)
    {next : α → Compile γ}
    {after : β → Compile δ} :
    Alike twins least state other post (Compile.failAt code left >>= next)
      (Compile.failAt code right >>= after) :=
  fun _ => .refused places

/-- A check with one result, and what follows it. -/
theorem checking
    {left right : Span}
    {result : Except ErrorCode α}
    {next : α → Compile γ}
    {after : α → Compile δ}
    (places : twins.Places left right)
    (rest : ∀ value, result = .ok value →
      Alike twins least state other post (next value) (after value)) :
    Alike twins least state other post (Compile.checkAt left result >>= next)
      (Compile.checkAt right result >>= after) := by
  cases result with
  | error code => exact failedThen places
  | ok value => exact rest value rfl

/-- A value that must be there, and what follows it. -/
theorem requiring
    {code : ErrorCode}
    {left right : Span}
    {value : Option α}
    {next : α → Compile γ}
    {after : α → Compile δ}
    (places : twins.Places left right)
    (rest : ∀ content, value = some content →
      Alike twins least state other post (next content) (after content)) :
    Alike twins least state other post (Compile.requireAt code left value >>= next)
      (Compile.requireAt code right value >>= after) := by
  cases value with
  | none => exact failedThen places
  | some content => exact rest content rfl

end Alike

/-- Branches of one condition. -/
theorem Alike.ite
    {post : CompileState → γ → δ → Prop}
    {condition : Prop}
    [Decidable condition]
    {step step' : Compile γ}
    {twin twin' : Compile δ}
    (whenTrue : condition → Alike twins least state other post step twin)
    (whenFalse : ¬condition → Alike twins least state other post step' twin') :
    Alike twins least state other post (if condition then step else step')
      (if condition then twin else twin') := by
  split
  · exact whenTrue ‹_›
  · exact whenFalse ‹_›

/-- Steps of two cases, and what follows both. -/
theorem Alike.either
    {M : CompileState → α → β → Prop}
    {post : CompileState → γ → δ → Prop}
    {condition : Prop}
    [Decidable condition]
    {step step' : Compile α}
    {twin twin' : Compile β}
    {next : α → Compile γ}
    {after : β → Compile δ}
    (whenTrue : Alike twins least state other M step twin)
    (whenFalse : Alike twins least state other M step' twin')
    (rest : ∀ between tree value result, state.Leads between → M between value result →
      Alike twins least between tree post (next value) (after result)) :
    Alike twins least state other post (if condition then step >>= next else step' >>= next)
      (if condition then twin >>= after else twin' >>= after) :=
  .ite (fun _ => whenTrue.bind rest) fun _ => whenFalse.bind rest

/-! ## Steps with equal results -/

/-- Two steps whose results are equal wherever they start. -/
class Matches (twins : Twins) (least : Nat) (step twin : Compile α) : Prop where
  alike :
    ∀ state other, Alike twins least state other (fun _ value result => result = value) step twin

/--
Two steps whose results are both made of something that they have in common,
wherever they start.
-/
class Yields
    (twins : Twins) (least : Nat) (step : Compile α) (twin : Compile β) {ι : outParam Type}
    (left : outParam (ι → α)) (right : outParam (ι → β)) : Prop where
  alike :
    ∀ state other, Alike twins least state other
      (fun _ value result => ∃ common, value = left common ∧ result = right common) step twin

/-- Two corresponding places. -/
structure Place (twins : Twins) where
  left : Span
  right : Span
  places : twins.Places left right

/-- Two spans over the same tokens. -/
structure Stretch (twins : Twins) extends Place twins where
  spans : twins.Spans left right

/-- Spans over the same tokens are corresponding places. -/
def Stretch.of {left right : Span} (spans : twins.Spans left right) : Stretch twins :=
  ⟨⟨left, right, .inr spans⟩, spans⟩

namespace Matches

instance pure (value : α) : Matches twins least (Pure.pure value) (Pure.pure value) where
  alike _ _ := .pure rfl

instance bind (step twin : Compile α) (next after : α → Compile β)
    [first : Matches twins least step twin]
    [rest : ∀ value, Matches twins least (next value) (after value)] :
    Matches twins least (step >>= next) (twin >>= after) where
  alike state other := (first.alike state other).bind fun between tree _ result _ same => by
    subst same
    exact (rest result).alike between tree

instance yielded {ι : Type} (step : Compile α) (twin : Compile β) (left : ι → α) (right : ι → β)
    (next : α → Compile γ) (after : β → Compile γ) [first : Yields twins least step twin left right]
    [rest : ∀ common, Matches twins least (next (left common)) (after (right common))] :
    Matches twins least (step >>= next) (twin >>= after) where
  alike state other := (first.alike state other).bind fun between tree _ _ _ ⟨common, same⟩ => by
    obtain ⟨rfl, rfl⟩ := same
    exact (rest common).alike between tree

/-- A step whose results have something in common goes on with steps with equal results. -/
theorem yielding
    {ι : Type}
    {left : ι → α}
    {right : ι → β}
    {step : Compile α}
    {twin : Compile β}
    {next : α → Compile γ}
    {after : β → Compile γ}
    [Yields twins least step twin left right]
    (rest : ∀ common, Matches twins least (next (left common)) (after (right common))) :
    Matches twins least (step >>= next) (twin >>= after) :=
  yielded step twin left right next after

/-- A step with equal results goes on with such steps. -/
theorem andThen
    {step twin : Compile α}
    {next after : α → Compile β}
    [Matches twins least step twin]
    (rest : ∀ value, Matches twins least (next value) (after value)) :
    Matches twins least (step >>= next) (twin >>= after) :=
  bind step twin next after

/-- The steps after steps with equal results. -/
theorem andThenBy
    {step twin : Compile α}
    {next after : α → Compile β}
    (first : Matches twins least step twin)
    (rest : ∀ value, Matches twins least (next value) (after value)) :
    Matches twins least (step >>= next) (twin >>= after) :=
  bind step twin next after

instance map (change : α → β) (step twin : Compile α) [Matches twins least step twin] :
    Matches twins least (change <$> step) (change <$> twin) :=
  bind step twin (fun value => Pure.pure (change value)) fun value => Pure.pure (change value)

instance ite (condition : Prop) [Decidable condition] (step twin other otherTwin : Compile α)
    [whenTrue : Matches twins least step twin] [whenFalse : Matches twins least other otherTwin] :
    Matches twins least (if condition then step else other)
      (if condition then twin else otherTwin) := by
  split
  · exact whenTrue
  · exact whenFalse

instance failAt (code : ErrorCode) (place : Place twins) :
    Matches twins least (Compile.failAt code place.left : Compile α)
      (Compile.failAt code place.right) where
  alike _ _ := .failAt place.places

instance failAtBind (code : ErrorCode) (place : Place twins) (next after : α → Compile β) :
    Matches twins least (Compile.failAt code place.left >>= next)
      (Compile.failAt code place.right >>= after) where
  alike _ _ := .failedThen place.places

instance checkAt (place : Place twins) (result : Except ErrorCode α) :
    Matches twins least (Compile.checkAt place.left result)
      (Compile.checkAt place.right result) := by
  cases result with
  | ok value => exact pure value
  | error code => exact failAt code place

instance requireAt (code : ErrorCode) (place : Place twins) (value : Option α) :
    Matches twins least (Compile.requireAt code place.left value)
      (Compile.requireAt code place.right value) := by
  cases value with
  | some content => exact pure content
  | none => exact failAt code place

end Matches

/-- Steps with equal results end with them. -/
theorem Alike.matching
    {step twin : Compile α}
    [matching : Matches twins least step twin] :
    Alike twins least state other (fun _ value result => result = value) step twin :=
  matching.alike state other

/-- Steps with equal results, and what follows them. -/
theorem Alike.behind
    {post : CompileState → γ → δ → Prop}
    {step twin : Compile α}
    [first : Matches twins least step twin]
    {next : α → Compile γ}
    {after : α → Compile δ}
    (rest : ∀ between tree value, state.Leads between →
      Alike twins least between tree post (next value) (after value)) :
    Alike twins least state other post (step >>= next) (twin >>= after) :=
  (first.alike state other).bind fun between tree _ result leads same => by
    subst same
    exact rest between tree result leads

/-- Steps whose results have something in common, and what follows them. -/
theorem Alike.yielding
    {ι : Type}
    {left : ι → α}
    {right : ι → β}
    {post : CompileState → γ → δ → Prop}
    {step : Compile α}
    {twin : Compile β}
    [first : Yields twins least step twin left right]
    {next : α → Compile γ}
    {after : β → Compile δ}
    (rest : ∀ between tree common, state.Leads between →
      Alike twins least between tree post (next (left common)) (after (right common))) :
    Alike twins least state other post (step >>= next) (twin >>= after) :=
  (first.alike state other).bind fun between tree _ _ leads ⟨common, same⟩ => by
    obtain ⟨rfl, rfl⟩ := same
    exact rest between tree common leads

instance (parts : List α) (step : α → Compile β)
    [∀ part, Matches twins least (step part) (step part)] :
    Matches twins least (parts.mapM step) (parts.mapM step) := by
  induction parts with
  | nil => exact .pure []
  | cons part parts inductionHypothesis =>
      rw [List.mapM_cons]
      infer_instance

end Compile

end BotScript
