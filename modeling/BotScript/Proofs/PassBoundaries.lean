import BotScript.Proofs.ScannedItems

namespace BotScript

/-!
# The passes agree on where items end

A compilation that succeeds is taken apart into the runs of its passes.  Each run of
the second and of the last pass ends where the token list has been skipped to, and
the items of the first pass cover all tokens but the mark of the end.
-/

/-! ## The mark of the end -/

/-- A list of tokens of which only the last one marks the end of the text. -/
structure TokenList.Marked (tokens : List Token) : Prop where
  ne_nil : tokens ≠ []
  marks :
    ∀ (index : Nat) token, tokens[index]? = some token →
      (token.kind = .endOfText ↔ index + 1 = tokens.length)

/-- The kind of a scanned token is not the mark of the end. -/
theorem Scan.tokenKind_ne_endOfText
    (constants : Constants)
    (first : Char)
    (text : String) :
    tokenKind constants first text ≠ .endOfText := by
  have word : wordKind constants text ≠ .endOfText := by
    unfold wordKind
    split
    · simp
    · split <;> simp
  unfold tokenKind
  split
  · simp
  · split
    · simp
    · split
      · simp
      · split
        · split <;> simp
        · exact word

/-- The tokens of a text end with the only mark of the end. -/
theorem Scan.tokensFrom_marked
    (constants : Constants)
    (position : Nat)
    (text : List Char) :
    TokenList.Marked (tokensFrom constants position text) := by
  match text with
  | [] =>
      unfold tokensFrom
      refine ⟨by simp, fun index token found => ?_⟩
      obtain ⟨inside, rfl⟩ := List.getElem?_eq_some_iff.mp found
      simp at inside
      simp [inside]
  | first :: rest =>
      unfold tokensFrom
      dsimp only
      have further := tokensFrom_marked constants
        (position + (String.ofList (first :: rest.take (tokenTail first rest))).utf8ByteSize +
          (String.ofList ((rest.drop (tokenTail first rest)).take
            (separatorLength .between (rest.drop (tokenTail first rest))))).utf8ByteSize)
        ((rest.drop (tokenTail first rest)).drop
          (separatorLength .between (rest.drop (tokenTail first rest))))
      refine ⟨by simp, fun index token found => ?_⟩
      cases index with
      | zero =>
          cases found
          have notLast := List.length_pos_iff.mpr further.ne_nil
          refine iff_of_false (tokenKind_ne_endOfText _ _ _) ?_
          rw [List.length_cons]
          omega
      | succ index =>
          rw [List.length_cons, Nat.succ_inj]
          exact further.marks index token found
termination_by text.length
decreasing_by
  simp only [List.length_drop, List.length_cons]
  omega

namespace TokenList.Marked

variable {context : CompileContext}

/-- There is a token. -/
theorem size_pos (marked : Marked context.tokens.toList) : 0 < context.tokens.size := by
  have notEmpty := List.length_pos_iff.mpr marked.ne_nil
  rwa [Array.length_toList] at notEmpty

/-- The last token marks the end. -/
theorem ended (marked : Marked context.tokens.toList) : context.Ended := by
  intro token found
  have positive := marked.size_pos
  rw [← Array.getElem?_toList] at found
  refine (marked.marks _ token found).mpr ?_
  rw [Array.length_toList]
  omega

/-- The mark of the end is the last token. -/
theorem isLast
    (marked : Marked context.tokens.toList)
    {position : Nat}
    (inside : position < context.tokens.size)
    (isEnd : (context.token position).kind = .endOfText) :
    position + 1 = context.tokens.size := by
  have found : context.tokens[position]? = some (context.token position) := by
    simp [CompileContext.token, inside]
  rw [← Array.getElem?_toList] at found
  have isLast := (marked.marks _ _ found).mp isEnd
  rwa [Array.length_toList] at isLast

end TokenList.Marked

/-! ## Runs over lists -/

/-- One turn for each entry of a list, each from where the one before it has led. -/
inductive Each {α σ : Type} (turn : α → σ → σ → Prop) : List α → σ → σ → Prop where
  | nil
      {state : σ} :
      Each turn [] state state
  | cons
      {entry : α}
      {entries : List α}
      {before between after : σ} :
      turn entry before between →
      Each turn entries between after →
      Each turn (entry :: entries) before after

namespace Compile

variable {α β : Type} {context : CompileContext} {state after : CompileState}

/-- A run over a list consists of a run for each of its entries. -/
theorem forM_each
    {step : α → Compile PUnit}
    {entries : List α}
    (runs : entries.forM step context state = .ok ((), after)) :
    Each (fun entry before after => step entry context before = .ok ((), after))
      entries state after := by
  induction entries generalizing state with
  | nil =>
      cases runs
      exact .nil
  | cons entry entries inductionHypothesis =>
      rw [List.forM_eq_forM, List.forM_cons] at runs
      obtain ⟨_, between, taken, runs⟩ := bind_ok runs
      exact .cons taken (inductionHypothesis runs)

/-- A run over a list that collects results consists of a run for each of its entries. -/
theorem mapM_each
    {step : α → Compile β}
    {entries : List α}
    {results : List β}
    (runs : entries.mapM step context state = .ok (results, after)) :
    Each (fun entry before after => ∃ result, step entry context before = .ok (result, after))
      entries state after := by
  induction entries generalizing state results with
  | nil =>
      cases runs
      exact .nil
  | cons entry entries inductionHypothesis =>
      rw [List.mapM_cons] at runs
      obtain ⟨result, between, taken, runs⟩ := bind_ok runs
      obtain ⟨_, _, others, runs⟩ := bind_ok runs
      cases runs
      exact .cons ⟨result, taken⟩ (inductionHypothesis others)

end Compile

/-- What holds of every turn. -/
theorem Each.imp
    {α σ : Type}
    {turn other : α → σ → σ → Prop}
    {entries : List α}
    {before after : σ}
    (each : Each turn entries before after)
    (implies : ∀ entry ∈ entries, ∀ before after,
      turn entry before after → other entry before after) :
    Each other entries before after := by
  induction each with
  | nil => exact .nil
  | cons taken _ inductionHypothesis =>
      obtain ⟨here, further⟩ := List.forall_mem_cons.mp implies
      exact .cons (here _ _ taken) (inductionHypothesis further)

/-- Every entry of a list has had its turn. -/
theorem Each.of_mem
    {α σ : Type}
    {turn : α → σ → σ → Prop}
    {entries : List α}
    {before after : σ}
    (each : Each turn entries before after) :
    ∀ entry ∈ entries, ∃ earlier later, turn entry earlier later := by
  induction each with
  | nil => simp
  | cons taken _ inductionHypothesis =>
      exact List.forall_mem_cons.mpr ⟨⟨_, _, taken⟩, inductionHypothesis⟩

/-! ## Passes -/

namespace Compile

/-- The runs of a compilation that succeeds, with what each leaves to the next one. -/
structure Stages (context : CompileContext) (tree : Tree) where
  outline : Outline
  scanned : CompileState
  scans : scan context {} = .ok (outline, scanned)
  resolved : CompileState
  resolves : resolveParents outline.classes context scanned = .ok ((), resolved)
  pending : Pending
  declared : CompileState
  declares :
    outline.classes.foldlM (fun pending item => declareMembers item pending) {} context resolved =
      .ok (pending, declared)
  bodies : List PendingBody
  signed : CompileState
  signs : outline.functions.mapM declareFunction context declared = .ok (bodies, signed)
  initialized : CompileState
  initializes :
    pending.initials.forM compileInitial context
        { signed with tree := withDispatchTables signed.tree } =
      .ok ((), initialized)
  compiled : CompileState
  compiles :
    (pending.bodies ++ bodies).forM compileBody context initialized = .ok ((), compiled)
  result : compiled.tree = tree

/-- A compilation that succeeds consists of the runs of its passes. -/
theorem compile_stages
    {registry : Registry}
    {tokens : TokenList}
    {tree : Tree}
    (accepted : compile registry tokens = .ok tree) :
    Nonempty (Stages ⟨tokens.tokens, registry⟩ tree) := by
  unfold compile at accepted
  cases runs : (program.run ⟨tokens.tokens, registry⟩).run {} with
  | error error =>
      rw [runs] at accepted
      cases accepted
  | ok result =>
      rw [runs] at accepted
      cases accepted
      obtain ⟨tree, final⟩ := result
      change program ⟨tokens.tokens, registry⟩ {} = .ok (tree, final) at runs
      unfold program at runs
      obtain ⟨outline, scanned, scans, runs⟩ := bind_ok runs
      obtain ⟨_, resolved, resolves, runs⟩ := bind_ok runs
      obtain ⟨pending, declared, declares, runs⟩ := bind_ok runs
      obtain ⟨bodies, signed, signs, runs⟩ := bind_ok runs
      obtain ⟨_, _, looked, runs⟩ := bind_ok runs
      cases looked
      obtain ⟨_, _, dispatches, runs⟩ := bind_ok runs
      cases dispatches
      obtain ⟨_, initialized, initializes, runs⟩ := bind_ok runs
      obtain ⟨_, compiled, compiles, runs⟩ := bind_ok runs
      cases runs
      exact ⟨⟨outline, scanned, scans, resolved, resolves, pending, declared, declares, bodies,
        signed, signs, initialized, initializes, _, compiles, rfl⟩⟩

namespace Stages

variable {context : CompileContext} {tree : Tree}

/-- The passes agree on where items, bodies and initial values end. -/
structure Agree (stages : Stages context tree) : Prop where
  /-- The items that are found cover the tokens up to the last one, which marks the end. -/
  items : context.Tiles stages.outline stages.scanned.position
  sentinel :
    stages.scanned.position + 1 = context.tokens.size ∧
      (context.token stages.scanned.position).kind = .endOfText
  /-- The members of a class end at the brace up to which its body has been skipped. -/
  classes :
    Each
      (fun item (before after : Pending × CompileState) =>
        declareMembers item before.1 context before.2 = .ok after ∧
          Crosses context skipBlock () item.body after.2.position)
      stages.outline.classes ({}, stages.resolved) (stages.pending, stages.declared)
  /-- A function is declared up to the end of the item that has been found. -/
  functions :
    Each
      (fun start before after => ∃ pending,
        declareFunction start context before = .ok (pending, after) ∧
          context.Spans start pending.body after.position)
      stages.outline.functions stages.declared stages.signed
  /-- The initial value of a field ends at the comma or semicolon up to which it is skipped. -/
  initials :
    Each
      (fun initial before after =>
        compileInitial initial context before = .ok ((), after) ∧
          context.bracket Symbol.bracket after.position = .bars ∧
            Crosses context skipInitializer () initial.position after.position)
      stages.pending.initials
      { stages.signed with tree := withDispatchTables stages.signed.tree } stages.initialized
  /-- The body of a function or method ends at the brace up to which it has been skipped. -/
  bodies :
    Each
      (fun pending before after =>
        compileBody pending context before = .ok ((), after) ∧
          Crosses context skipBlock () pending.body after.position)
      (stages.pending.bodies ++ stages.bodies) stages.initialized stages.compiled

end Stages

/-- The members of classes end where their bodies have been skipped to. -/
theorem declareClasses_each
    {context : CompileContext}
    {state after : CompileState}
    {items : List ClassItem}
    {first last : Pending}
    (ended : context.Ended)
    (opens : ∀ item ∈ items, context.symbol? item.body = some .openBlock)
    (settled : AllSettled context last.initials)
    (runs :
      items.foldlM (fun pending item => declareMembers item pending) first context state =
        .ok (last, after)) :
    first.initials ⊆ last.initials ∧
      Each
        (fun item (before after : Pending × CompileState) =>
          declareMembers item before.1 context before.2 = .ok after ∧
            Crosses context skipBlock () item.body after.2.position)
        items (first, state) (last, after) := by
  induction items generalizing first state with
  | nil =>
      cases runs
      exact ⟨List.Subset.refl _, .nil⟩
  | cons item items inductionHypothesis =>
      obtain ⟨here, further⟩ := List.forall_mem_cons.mp opens
      rw [List.foldlM_cons] at runs
      obtain ⟨next, between, taken, runs⟩ := bind_ok runs
      obtain ⟨rest, each⟩ := inductionHypothesis further runs
      obtain ⟨more, crosses⟩ := declareMembers_reads ended item first here _ _ _ _ rfl taken
      refine ⟨List.Subset.trans more rest, .cons ⟨taken, ?_⟩ each⟩
      exact crosses fun initial isThere => settled initial (rest isThere)

end Compile

open Compile in
/-- The passes of an accepted program agree on where items, bodies and initial values end. -/
theorem compile_boundaries
    {registry : Registry}
    {source : String}
    {tree : Tree}
    (accepted : compile registry (TokenList.ofSource registry.constants source) = .ok tree) :
    ∃ stages : Stages ⟨(TokenList.ofSource registry.constants source).tokens, registry⟩ tree,
      stages.Agree := by
  obtain ⟨stages⟩ := compile_stages accepted
  generalize isContext : (⟨(TokenList.ofSource registry.constants source).tokens, registry⟩ :
    CompileContext) = context at stages
  have marked : TokenList.Marked context.tokens.toList := by
    rw [← isContext]
    exact Scan.tokensFrom_marked _ _ _
  have ended := marked.ended
  have initials := (forM_each stages.initializes).imp fun initial _ before after taken =>
    (⟨taken, compileInitial_settled ended taken⟩ : _ ∧ _)
  have settled : AllSettled context stages.pending.initials := by
    intro initial isThere
    obtain ⟨_, after, _, isSettled⟩ := initials.of_mem initial isThere
    exact ⟨_, isSettled⟩
  have signed := (mapM_each stages.signs).imp fun start _ before after taken =>
    (taken.imp fun pending runs => ⟨runs, declareFunction_headed ended start _ _ _ _ rfl runs⟩ :
      ∃ pending, declareFunction start context before = .ok (pending, after) ∧
        context.Headed start pending.body after.position)
  have headed : context.AllHeaded stages.outline := by
    intro start isThere
    obtain ⟨_, after, pending, _, isHeaded⟩ := signed.of_mem start isThere
    exact ⟨_, _, isHeaded⟩
  obtain ⟨tiles, isEnd⟩ := scan_reads ended _ _ _ rfl stages.scans headed
  refine ⟨stages, tiles, ⟨?_, isEnd⟩, ?_, ?_, ?_, ?_⟩
  · exact marked.isLast (tiles.lt_size ended marked.size_pos) isEnd
  · exact (declareClasses_each ended tiles.opens settled stages.declares).2
  · refine signed.imp fun start isThere before after => Exists.imp ?_
    rintro pending ⟨runs, isHeaded⟩
    exact ⟨runs, tiles.spans_of_headed ended isEnd headed isThere isHeaded⟩
  · refine initials.imp fun initial _ before after => ?_
    rintro ⟨runs, isSettled⟩
    exact ⟨runs, isSettled.bars, skipInitializer_settled ended isSettled⟩
  · exact (forM_each stages.compiles).imp fun pending _ before after taken =>
      ⟨taken, compileBody_ends ended taken⟩

/-- A class with a list as an initial value, and a function with a block in its body. -/
def Compile.nestedBraces : String :=
  "class A\x7bint[] x=\x7b1,2\x7d;int y=f(3),z;int m()\x7breturn x[0];\x7d\x7d" ++
    "int f(int n=2)\x7bif(n>0)\x7breturn n;\x7dreturn 0;\x7d"

open Compile in
/-- The class and the function cover the first sixty-one tokens; the last one marks the end. -/
theorem compile_boundaries_nested :
    ∃ tree : Tree,
      compile .standard (TokenList.ofSource Registry.standard.constants nestedBraces) =
          .ok tree ∧
        ∃ stages : Stages
            ⟨(TokenList.ofSource Registry.standard.constants nestedBraces).tokens, .standard⟩ tree,
          stages.Agree ∧
            stages.outline.classes.map (·.body) = [2] ∧
            stages.outline.functions = [37] ∧
            stages.scanned.position = 61 := by
  have isAccepted :
      (compile .standard (TokenList.ofSource Registry.standard.constants nestedBraces)).isOk =
        true := by
    decide +kernel
  have found :
      (scan ⟨(TokenList.ofSource Registry.standard.constants nestedBraces).tokens, .standard⟩
          {}).toOption.map
          (fun found => (found.1.classes.map (·.body), found.1.functions, found.2.position)) =
        some ([2], [37], 61) := by
    decide +kernel
  cases accepted :
      compile .standard (TokenList.ofSource Registry.standard.constants nestedBraces) with
  | error error =>
      rw [accepted] at isAccepted
      cases isAccepted
  | ok tree =>
      obtain ⟨stages, agree⟩ := compile_boundaries accepted
      rw [stages.scans] at found
      simp only [Except.toOption, Option.map_some, Option.some.injEq, Prod.mk.injEq] at found
      exact ⟨tree, rfl, stages, agree, found⟩

end BotScript
