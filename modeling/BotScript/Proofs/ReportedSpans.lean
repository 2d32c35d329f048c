import BotScript.Proofs.NormalMachine
import BotScript.Proofs.RestoredFrames
import BotScript.Proofs.LawfulSteps
import BotScript.Proofs.Tokenization
import BotScript.Proofs.TwinPrograms

namespace BotScript

/-!
# Spans that are reported

In every state of a program the exceptions that are handed on, held back or reported
are at places of nodes.  The nodes of an accepted program have places in its text, and
so has the error of a program that is not accepted: whatever span is reported points
into the text.
-/

/-!
## The places of spans

A compilation is its own twin, so each of its spans that corresponds to itself runs from
one token of the text to another one, or is no part of the text.  As tokens lie in order
between characters of the text, such a span cuts a part out of it.
-/

namespace TokenList

/-- A span runs from the start of one token to the end of another one, or is no part of the text. -/
def HasPlace (list : TokenList) (span : Span) : Prop :=
  span = .none ∨ ∃ first last, first ≤ last ∧ list.spanBetween? first last = some span

/-- What is no part of the text has its place. -/
theorem hasPlace_none {list : TokenList} : list.HasPlace .none :=
  .inl rfl

/-- One of two corresponding places is a place. -/
theorem Places.hasPlace
    {list other : TokenList}
    {left right : Span}
    (places : list.Places other left right) :
    list.HasPlace left := by
  obtain ⟨isNone, -⟩ | ⟨first, last, forth, isLeft, -⟩ := places
  · exact .inl isNone
  · exact .inr ⟨first, last, forth, isLeft⟩

end TokenList

/-- Every part of a tree has its place in a list of tokens. -/
structure Tree.PlacedIn (tree : Tree) (list : TokenList) : Prop where
  exprs : ∀ node ∈ tree.exprs, list.HasPlace node.span
  stmts : ∀ node ∈ tree.stmts, list.HasPlace node.span
  functions : ∀ function ∈ tree.functions, list.HasPlace function.span
  classes : ∀ entry ∈ tree.classes, list.HasPlace entry.span

/-- An entry of a table that corresponds to itself is related to itself. -/
theorem Along.self
    {α : Type}
    {relate : Span → Span → Prop}
    {look : α → Span}
    {table : Array α}
    (along : Along relate look table table) :
    ∀ entry ∈ table, relate (look entry) (look entry) := by
  intro entry isEntry
  obtain ⟨index, found⟩ := Array.mem_iff_getElem?.mp isEntry
  exact along index entry entry found found

/-- A tree that corresponds to itself has its parts at places. -/
theorem Twins.Placed.placedIn
    {twins : Twins}
    {tree : Tree}
    (placed : twins.Placed tree tree) :
    tree.PlacedIn twins.list where
  exprs node isNode := TokenList.Places.hasPlace (.inr (placed.exprs.self node isNode))
  stmts node isNode := (placed.stmts.self node isNode).hasPlace
  functions function isFunction := (placed.functions.self function isFunction).hasPlace
  classes entry isEntry := (placed.classes.self entry isEntry).hasPlace

/-- What a compilation of several tokens accepts, or where it fails. -/
theorem compile_placed_of_several
    {registry : Registry}
    {list : TokenList}
    (ordered : list.Ordered)
    (several : 1 < list.size) :
    (∀ error, compile registry list = .error error → list.HasPlace error.span) ∧
      ∀ tree, compile registry list = .ok tree → tree.PlacedIn list := by
  let twins : Twins := ⟨list, list, registry, rfl, ordered, ordered, several⟩
  have outcomes := twins.outcomes
  unfold compile
  change (∀ error, (Compile.program twins.first {}).map (·.1) = .error error → _) ∧
    ∀ tree, (Compile.program twins.first {}).map (·.1) = .ok tree → _
  have same : Compile.program twins.second (CompileState.withTree {} {}) =
      Compile.program twins.first {} := rfl
  generalize Compile.program twins.first {} = taken at outcomes same
  generalize Compile.program twins.second (CompileState.withTree {} {}) = taken' at outcomes same
  cases outcomes with
  | @accepted after other tree twin _ _ placed =>
      simp only [Except.ok.injEq, Prod.mk.injEq] at same
      obtain ⟨rfl, -⟩ := same
      refine ⟨nofun, ?_⟩
      rintro _ ⟨⟩
      exact placed.2.placedIn
  | @refused code left right places =>
      refine ⟨?_, nofun⟩
      rintro _ ⟨⟩
      exact places.hasPlace

/-- The error of a compilation has its place in the text, and so has every part of a tree. -/
theorem compile_placed (registry : Registry) (source : String) :
    (∀ error,
      compile registry (.ofSource registry.constants source) = .error error →
      (TokenList.ofSource registry.constants source).HasPlace error.span) ∧
    ∀ tree,
      compile registry (.ofSource registry.constants source) = .ok tree →
      tree.PlacedIn (.ofSource registry.constants source) := by
  by_cases several : 1 < (TokenList.ofSource registry.constants source).size
  · exact compile_placed_of_several (TokenList.ofSource_ordered registry.constants source) several
  · rw [compile_of_size_le (Nat.le_of_not_lt several)]
    refine ⟨nofun, ?_⟩
    rintro _ ⟨⟩
    exact ⟨by simp, by simp, by simp, by simp⟩

/-! ## Cutting the text -/

/-- A span cuts a part out of a text: both of its ends stand between characters. -/
def Span.Cuts (span : Span) (source : String) : Prop :=
  ∃ before middle after,
    source = before ++ middle ++ after ∧
      before.utf8ByteSize = span.start.toNat ∧
        (before ++ middle).utf8ByteSize = span.stop.toNat

/-- Of two parts that a text begins with, the one that is not longer begins the other one. -/
theorem exists_append_of_begins
    {source begin behind further rest : String}
    (begins : source = begin ++ behind)
    (goesOn : source = further ++ rest)
    (notLonger : begin.utf8ByteSize ≤ further.utf8ByteSize) :
    ∃ middle, further = begin ++ middle := by
  have isPrefix : begin.toList <+: source.toList := ⟨behind.toList, by simp [begins]⟩
  have isFurther : further.toList <+: source.toList := ⟨rest.toList, by simp [goesOn]⟩
  obtain ⟨middle, cut⟩ | ⟨middle, cut⟩ := List.prefix_or_prefix_of_prefix isPrefix isFurther
  · exact ⟨String.ofList middle, String.toList_inj.mp (by simp [cut])⟩
  · have whole : begin = further ++ String.ofList middle := String.toList_inj.mp (by simp [cut])
    have empty : String.ofList middle = "" := by
      rw [← String.utf8ByteSize_eq_zero_iff]
      rw [whole, String.utf8ByteSize_append] at notLonger
      omega
    exact ⟨"", by simp [whole, empty]⟩

/-- A token that is laid out starts and ends between characters of the text. -/
theorem Laid.ends
    {source before : String}
    {tokens : List Token}
    (laid : Laid source before tokens)
    {token : Token}
    (isToken : token ∈ tokens) :
    ∃ begin behind,
      source = begin ++ token.text ++ behind ∧
        begin.utf8ByteSize = token.span.start.toNat ∧
          (begin ++ token.text).utf8ByteSize = token.span.stop.toNat := by
  obtain ⟨index, inside, rfl⟩ := List.getElem_of_mem isToken
  obtain ⟨begin, further⟩ := laid.drop inside
  rw [List.drop_eq_getElem_cons inside] at further
  obtain ⟨rest, whole⟩ := further.part
  exact ⟨begin, tokens[index].separator ++ rest, by rw [← String.append_assoc, ← whole],
    further.start.symm, further.stop.symm⟩

/--
A span points into the text of a list: it runs from the start of a token to the end of
one, or it is the empty span at the start, and cutting the text by it does not fail.
-/
structure TokenList.Locates (list : TokenList) (span : Span) : Prop where
  tokens :
    span = .none ∨
      ∃ first ∈ list.tokens, ∃ last ∈ list.tokens,
        span.start = first.span.start ∧ span.stop = last.span.stop
  forward : span.start ≤ span.stop
  inside : span.stop.toNat ≤ list.source.utf8ByteSize
  cuts : span.Cuts list.source

/-- A place in a list that is laid out in order points into its text. -/
theorem TokenList.HasPlace.locates
    {list : TokenList}
    (laid : Laid list.source list.leading list.tokens.toList)
    (ordered : list.Ordered)
    {span : Span}
    (hasPlace : list.HasPlace span) :
    list.Locates span := by
  obtain rfl | ⟨first, last, forth, between⟩ := hasPlace
  · exact ⟨.inl rfl, UInt32.le_refl _, Nat.zero_le _, "", "", list.source, by simp, rfl, rfl⟩
  obtain ⟨token, later, found, isLater, rfl⟩ := spanBetween?_eq_some between
  have isToken := Array.mem_of_getElem? found
  have isLast := Array.mem_of_getElem? isLater
  obtain ⟨begin, behind, whole, start, -⟩ := laid.ends (Array.mem_toList_iff.mpr isToken)
  obtain ⟨further, rest, wholeLast, startLast, stop⟩ := laid.ends (Array.mem_toList_iff.mpr isLast)
  have starts := UInt32.le_iff_toNat_le.mp (ordered.inOrder forth found isLater).1
  have notLonger : begin.utf8ByteSize ≤ (further ++ later.text).utf8ByteSize := by
    rw [String.utf8ByteSize_append]
    omega
  obtain ⟨middle, cut⟩ := exists_append_of_begins (whole.trans (String.append_assoc ..)) wholeLast
    notLonger
  refine ⟨.inr ⟨token, isToken, later, isLast, rfl, rfl⟩, ?_, ?_, begin, middle, rest, ?_, start, ?_⟩
  · rw [UInt32.le_iff_toNat_le]
    exact start ▸ stop ▸ notLonger
  · have size := congrArg String.utf8ByteSize wholeLast
    rw [String.utf8ByteSize_append] at size
    exact Nat.le_trans (Nat.le_of_eq stop.symm) (by omega)
  · rw [← cut]
    exact wholeLast
  · rw [← cut]
    exact stop

/-- A place in a text whose offsets are words points into the text. -/
theorem TokenList.HasPlace.locates_ofSource
    {constants : Constants}
    {source : String}
    (short : source.utf8ByteSize < UInt32.size)
    {span : Span}
    (hasPlace : (ofSource constants source).HasPlace span) :
    (ofSource constants source).Locates span :=
  hasPlace.locates (ofSource_laid constants short) (ofSource_ordered constants source)

namespace Machine

/-- The exceptions of a machine are reported at some places. -/
structure Sited (places : Span → Prop) (machine : Machine) : Prop where
  incoming : Held places machine.incoming
  frames : ∀ frame ∈ machine.frames, Held places frame.pending
  outcome : ∀ error, machine.outcome = .failed error → places error.span

/-- An exception that a machine hands on, holds back or has failed with. -/
def Raises (machine : Machine) (error : RuntimeError) : Prop :=
  machine.incoming = some (.thrown error) ∨
    (∃ frame ∈ machine.frames, frame.pending = some (.thrown error)) ∨
      machine.outcome = .failed error

variable {places : Span → Prop} {setting : Setting} {machine result : Machine}

/-- What a machine raises is reported at one of the places. -/
theorem Sited.raises
    (sited : machine.Sited places)
    {error : RuntimeError}
    (raises : machine.Raises error) :
    places error.span := by
  obtain isIncoming | ⟨frame, isFrame, isPending⟩ | isOutcome := raises
  · exact sited.incoming.held error isIncoming
  · exact (sited.frames frame isFrame).held error isPending
  · exact sited.outcome error isOutcome

namespace Sited

/-- Nothing has been raised at the start. -/
theorem ofStart
    (entry : FuncId)
    (host : Host) :
    (start setting entry host).Sited places :=
  ⟨⟨nofun⟩, List.forall_mem_singleton.mpr ⟨nofun⟩, nofun⟩

/-- An empty chain fails with what is handed on. -/
theorem finish
    (sited : machine.Sited places)
    (isEmpty : machine.frames = []) :
    machine.finish.Sited places := by
  refine ⟨⟨nofun⟩, ?_, fun error isFailed => ?_⟩
  · rw [Machine.finish, isEmpty]
    exact List.forall_mem_nil _
  · unfold Machine.finish at isFailed
    dsimp only at isFailed
    split at isFailed
    · next isIncoming =>
      cases isFailed
      exact sited.incoming.held error isIncoming
    all_goals cases isFailed

/-- A turn keeps exceptions at the places. -/
theorem advance
    (sites : ∀ node : Node, places (node.span setting.tree))
    (sited : machine.Sited places) :
    (machine.advance setting).machine.Sited places := by
  obtain ⟨memory, frames, incoming, outcome, steps⟩ := machine
  cases frames with
  | nil => exact sited.finish rfl
  | cons frame below =>
      obtain ⟨top, rest⟩ := List.forall_mem_cons.mp sited.frames
      have handed := sited.incoming
      rw [advance_cons]
      have met : Step.Law.Met ⟨setting, places, True⟩ := ⟨sites, .inl trivial, .inl trivial⟩
      have moving :
          Step.Moving ⟨setting, places, True⟩ (Step.ofFrame setting frame incoming) :=
        .ofFrame (.inl trivial)
      have abides := moving.abides
        (readyMemory setting ⟨memory, frame :: below, incoming, outcome, steps⟩ frame)
        fun _ _ _ _ => .inl trivial
      unfold Frame.play
      revert abides
      generalize (Step.ofFrame setting frame incoming).run.run _ = taken
      intro abides
      cases abides with
      | @ok move after _ isSited =>
          cases move with
          | push stay child =>
              exact ⟨⟨nofun⟩, List.forall_mem_cons.mpr
                ⟨isSited.2, List.forall_mem_cons.mpr ⟨isSited.1, rest⟩⟩, sited.outcome⟩
          | tick stay => exact ⟨⟨nofun⟩, List.forall_mem_cons.mpr ⟨isSited, rest⟩, sited.outcome⟩
          | complete completion =>
              exact ⟨⟨fun error isThrown => isSited.sited error (Option.some.inj isThrown)⟩, rest,
                sited.outcome⟩
      | propagate _ isSited =>
          exact ⟨⟨fun error isThrown => isSited.sited error (Option.some.inj isThrown)⟩, rest,
            sited.outcome⟩
      | @fault fault =>
          cases fault with
          | error code =>
              refine ⟨⟨?_⟩, rest, sited.outcome⟩
              rintro _ ⟨⟩
              exact sites frame.node
          | _ => exact ⟨⟨nofun⟩, List.forall_mem_cons.mpr ⟨top, rest⟩, nofun⟩

/-- A program that is given up fails at the place of its innermost frame. -/
theorem abort
    (sites : ∀ node : Node, places (node.span setting.tree))
    (nowhere : places .none) :
    (machine.abort setting).Sited places := by
  refine ⟨⟨nofun⟩, List.forall_mem_nil _, ?_⟩
  rintro _ ⟨⟩
  cases machine.frames with
  | nil => exact nowhere
  | cons frame below => exact sites frame.node

/-- Errors are the same after a machine has been saved and restored. -/
theorem restored
    {snapshot : Snapshot}
    {signature expected : UInt32}
    {host : Host}
    (sited : machine.Sited places)
    (saved : machine.save setting.tree signature = .ok snapshot)
    (restores : restore setting.tree snapshot expected host = .ok result) :
    result.Sited places := by
  obtain ⟨frames, incoming⟩ := restored_frames saved restores
  have renamed {number : HeapRef → UInt32} {completion : Option Completion}
      (held : Held places completion) : Held places (completion.map (.renamed number)) := by
    refine ⟨fun error isThrown => ?_⟩
    obtain ⟨original, rfl, same⟩ := Option.map_eq_some_iff.mp isThrown
    cases original with
    | thrown other =>
        cases same
        exact held.held error rfl
    | _ => cases same
  refine ⟨incoming ▸ renamed sited.incoming, fun frame isFrame => ?_, fun error isFailed => ?_⟩
  · obtain ⟨index, inside, rfl⟩ := List.getElem_of_mem isFrame
    obtain ⟨length, same⟩ := List.forall₂_iff_get.mp frames
    have original := same index (length ▸ inside) inside
    rw [List.get_eq_getElem, List.get_eq_getElem] at original
    rw [original.pending]
    exact renamed (sited.frames _ (List.getElem_mem _))
  · obtain ⟨_, _, _, -, -, -, -, -, -, running, -⟩ := restore_ok restores
    rw [running] at isFailed
    cases isFailed

end Sited

/-- In every state of a program exceptions are reported at places of its nodes, or nowhere. -/
theorem Attained.sited
    (sites : ∀ node : Node, places (node.span setting.tree))
    (nowhere : places .none)
    (attained : machine.Attained setting) :
    machine.Sited places := by
  induction attained with
  | started entry host => exact .ofStart entry host
  | advanced _ inductionHypothesis => exact inductionHypothesis.advance sites
  | aborted _ _ => exact .abort sites nowhere
  | withHost host _ inductionHypothesis =>
      exact ⟨inductionHypothesis.incoming, inductionHypothesis.frames, inductionHypothesis.outcome⟩
  | closeUnused _ inductionHypothesis =>
      exact ⟨inductionHypothesis.incoming, inductionHypothesis.frames, inductionHypothesis.outcome⟩
  | restored host _ saved restores inductionHypothesis =>
      exact inductionHypothesis.restored saved restores

end Machine

/-! ## Accepted programs -/

/-- Every node of a tree whose parts have places is at a place. -/
theorem Tree.PlacedIn.span
    {tree : Tree}
    {list : TokenList}
    (placed : tree.PlacedIn list)
    (node : Node) :
    list.HasPlace (node.span tree) := by
  have found {α : Type} {table : Array α} {look : α → Span} (index : Nat)
      (places : ∀ entry ∈ table, list.HasPlace (look entry)) :
      list.HasPlace ((table[index]?.map look).getD .none) := by
    cases isEntry : table[index]? with
    | none => exact TokenList.hasPlace_none
    | some entry => exact places entry (Array.mem_of_getElem? isEntry)
  cases node with
  | start id | function id => exact found id.index placed.functions
  | fieldSetup id => exact found id.index placed.classes
  | statement id => exact found id.index placed.stmts
  | expression id demand => exact found id.index placed.exprs

/--
Every span that is reported points into the text.  This holds of the error of a program
that is not accepted, and of the expressions, statements and functions of one that is, and
of whatever exceptions are raised while it is run, stopped, saved and restored.
-/
theorem compile_locates
    {registry : Registry}
    {source : String}
    (short : source.utf8ByteSize < UInt32.size) :
    (∀ error,
      compile registry (.ofSource registry.constants source) = .error error →
      (TokenList.ofSource registry.constants source).Locates error.span) ∧
    ∀ setting : Setting,
      compile registry (.ofSource registry.constants source) = .ok setting.tree →
      (∀ node ∈ setting.tree.exprs,
        (TokenList.ofSource registry.constants source).Locates node.span) ∧
      (∀ node ∈ setting.tree.stmts,
        (TokenList.ofSource registry.constants source).Locates node.span) ∧
      (∀ function ∈ setting.tree.functions,
        (TokenList.ofSource registry.constants source).Locates function.span) ∧
      ∀ (machine : Machine) (error : RuntimeError),
        machine.Attained setting → machine.Raises error →
        (TokenList.ofSource registry.constants source).Locates error.span := by
  obtain ⟨refused, accepts⟩ := compile_placed registry source
  refine ⟨fun error isError => (refused error isError).locates_ofSource short, ?_⟩
  intro setting accepted
  have placed := accepts setting.tree accepted
  refine ⟨fun node isNode => (placed.exprs node isNode).locates_ofSource short,
    fun node isNode => (placed.stmts node isNode).locates_ofSource short,
    fun function isFunction => (placed.functions function isFunction).locates_ofSource short,
    fun machine error attained raises => ?_⟩
  have sited := attained.sited placed.span TokenList.hasPlace_none
  exact (sited.raises raises).locates_ofSource short

/-- An exception behind a comment with a letter of two bytes. -/
def Machine.throwing : String :=
  "/*é*/void main()\x7bthrow 7;\x7d"

open Machine (throwing) in
/-- The exception is reported at the eight bytes of the statement that throws it. -/
theorem compile_locates_throwing :
    throwing.utf8ByteSize < UInt32.size ∧
      ∃ tree : Tree,
        compile .standard (.ofSource Registry.standard.constants throwing) = .ok tree ∧
          ((Machine.start ⟨tree, .standard, 5⟩ ⟨0⟩ default).runFor ⟨tree, .standard, 5⟩ 20
            none).2.Raises ⟨7, ⟨18, 26⟩⟩ ∧
          (TokenList.ofSource Registry.standard.constants throwing).Locates ⟨18, 26⟩ := by
  have short : throwing.utf8ByteSize < UInt32.size := by decide +kernel
  have failed :
      (compile .standard (.ofSource Registry.standard.constants throwing)).toOption.map
          (fun tree =>
            ((Machine.start ⟨tree, .standard, 5⟩ ⟨0⟩ default).runFor ⟨tree, .standard, 5⟩ 20
              none).2.outcome) =
        some (.failed ⟨7, ⟨18, 26⟩⟩) := by
    decide +kernel
  refine ⟨short, ?_⟩
  cases accepted : compile .standard (.ofSource Registry.standard.constants throwing) with
  | error error =>
      rw [accepted] at failed
      cases failed
  | ok tree =>
      rw [accepted] at failed
      have raises := Option.some.inj failed
      refine ⟨tree, rfl, .inr (.inr raises), ?_⟩
      let setting : Setting := ⟨tree, .standard, 5⟩
      have started : (Machine.start setting ⟨0⟩ default).Attained setting := .started ⟨0⟩ default
      exact ((compile_locates short).2 setting accepted).2.2.2 _ ⟨7, ⟨18, 26⟩⟩
        (started.runFor 20 none) (.inr (.inr raises))

end BotScript
