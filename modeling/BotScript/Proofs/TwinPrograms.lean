import BotScript.Proofs.PassBoundaries
import BotScript.Proofs.Resaving
import BotScript.Proofs.TwinDeclarations
import BotScript.Token.Signature

namespace BotScript

/-!
# Twin programs

Two compilations of a program, over token lists that read the same, end with
trees of the same shape or with the same error at corresponding places.
-/

namespace Compile

variable {α β γ δ σ ι : Type} {twins : Twins} {least : Nat} {state : CompileState} {other : Tree}

/-! ## Steps over lists -/

/-- What every part keeps holds after a fold over two lists that correspond part by part. -/
theorem Alike.foldlM
    {left : ι → α}
    {right : ι → β}
    {holds : CompileState → σ → σ → Prop}
    {step : σ → α → Compile σ}
    {twin : σ → β → Compile σ}
    {start start' : σ}
    (parts : List ι)
    (each : ∀ part state other value value', holds state value value' →
      Alike twins least state other holds (step value (left part)) (twin value' (right part)))
    (starts : holds state start start') :
    Alike twins least state other holds ((parts.map left).foldlM step start)
      ((parts.map right).foldlM twin start') := by
  induction parts generalizing state other start start' with
  | nil => exact .pure starts
  | cons part parts inductionHypothesis =>
      exact (each part _ _ _ _ starts).bind fun _ _ _ _ _ holds => inductionHypothesis holds

/-- What holds of the result at every part holds of all results. -/
theorem Alike.mapM
    {holds : β → Prop}
    {step : α → Compile β}
    (parts : List α)
    (each : ∀ part ∈ parts, ∀ state other,
      Alike twins least state other (fun _ value twin => twin = value ∧ holds value) (step part)
        (step part)) :
    Alike twins least state other
      (fun _ values twin => twin = values ∧ ∀ value ∈ values, holds value) (parts.mapM step)
      (parts.mapM step) := by
  induction parts generalizing state other with
  | nil => exact .pure ⟨rfl, nofun⟩
  | cons part parts inductionHypothesis =>
      obtain ⟨first, rest⟩ := List.forall_mem_cons.mp each
      rw [List.mapM_cons]
      refine (first _ _).bind ?_
      rintro _ _ value _ _ ⟨rfl, meets⟩
      refine (inductionHypothesis rest).bind ?_
      rintro _ _ values _ _ ⟨rfl, meet⟩
      exact .pure ⟨rfl, List.forall_mem_cons.mpr ⟨meets, meet⟩⟩

/-! ## Dispatch tables -/

/-- The dispatch tables of both trees are built. -/
theorem Alike.setDispatchTables :
    Alike twins least state other (fun _ _ _ => True)
      (Compile.setTree (withDispatchTables state.tree))
      (Compile.setTree (withDispatchTables other)) :=
  .withTwin fun corresponds => by
    have shape : (withDispatchTables other).shape = (withDispatchTables state.tree).shape := by
      rw [Tree.shape_withDispatchTables, corresponds.shape, ← Tree.shape_withDispatchTables]
    exact .setTree shape (Nat.le_refl _)
      { corresponds.placed with
        classes :=
          corresponds.placed.classes.stays (.mapIdx fun _ _ => rfl) (.mapIdx fun _ _ => rfl) }

/-! ## Third pass -/

/-- The initializer of a field. -/
theorem Matches.compileInitial
    {initial : PendingInitial}
    (reachable : Reachable twins 1 initial.position) :
    Matches twins 0 (Compile.compileInitial initial) (Compile.compileInitial initial) := by
  unfold Compile.compileInitial
  refine .onTree fun tree twin shape => ⟨fun _ _ => .returning reachable fun between other => ?_⟩
  have ty : (pendingField twin initial).ty = (pendingField tree initial).ty :=
    Tree.same_of_shape shape (fun tree => (pendingField tree initial).ty) fun tree => by
      rw [Tree.pendingField_shape]
      rfl
  rw [ty]
  refine .behind fun _ _ _ _ => .behind fun _ _ value _ => .behind fun _ _ _ _ => ?_
  refine .behind fun _ _ isEnd _ => .ite (fun _ => .failing) fun _ => ?_
  refine (Matches.modifyClass ?_ ?_ ?_ initial.owner).alike _ _
  rotate_left
  · intro entry
    split <;> rfl
  · intro entry
    split <;> rfl
  intro entry other same
  have fields := congrArg (·.fields) same
  have statics := congrArg (·.statics) same
  have keeps (field other : FieldDef) (alike : other.shape = field.shape) :
      FieldDef.shape { other with initial := some value } =
        FieldDef.shape { field with initial := some value } := by
    simp_all [FieldDef.shape]
  split
  · simp_all [ClassDef.shape, map_modify_of_map statics keeps initial.index]
  · simp_all [ClassDef.shape, map_modify_of_map fields keeps initial.index]

/-- The tree with the body and the variables of a function. -/
def withBody (tree : Tree) (id : FuncId) (body : StmtId) (locals : List LocalDef) : Tree :=
  { tree with
    functions := tree.functions.modify id.index fun function =>
      { function with body := some body, locals } }

/-- A function gets its body and its variables in both trees. -/
theorem Alike.setBody (id : FuncId) (body : StmtId) (locals : List LocalDef) :
    Alike twins least state other (fun _ value twin => twin = value)
      (Compile.setTree (withBody state.tree id body locals))
      (Compile.setTree (withBody other id body locals)) :=
  .withTwin fun corresponds => by
    have shape := corresponds.shape
    simp only [Tree.shape, Tree.mk.injEq] at shape
    obtain ⟨exprs, stmts, functions, classes, keys⟩ := shape
    have keeps (function other : FunctionDef) (alike : other.shape = function.shape) :
        FunctionDef.shape { other with body := some body, locals } =
          FunctionDef.shape { function with body := some body, locals } := by
      simp_all [FunctionDef.shape]
    have placed : twins.Placed (withBody state.tree id body locals)
        (withBody other id body locals) :=
      { corresponds.placed with
        functions :=
          corresponds.placed.functions.stays (.modify (fun _ => by rfl) id.index)
            (.modify (fun _ => by rfl) id.index) }
    refine (Alike.setTree ?_ ?_ placed).weaken fun _ _ _ _ _ => rfl
    · simp only [withBody, Tree.shape, exprs, stmts, classes, keys,
        array_map_modify_of_map functions keeps id.index]
    · exact Nat.le_refl _

/-- Parameters as the first variables of a function. -/
theorem Matches.declareParams (params : List Param) (place : Place twins) :
    Matches twins least
      (params.forM fun param => do let _ ← declareVariable param.name param.ty place.left)
      (params.forM fun param => do let _ ← declareVariable param.name param.ty place.right) :=
  .forM params fun _ _ => .andThen fun _ => .pure ()

/-- The body of a function. -/
theorem Matches.compileBody
    {pending : PendingBody}
    (reachable : Reachable twins 1 pending.body) :
    Matches twins 0 (Compile.compileBody pending) (Compile.compileBody pending) where
  alike state other := by
    unfold Compile.compileBody
    refine .withTwin fun corresponds => .reading rfl rfl ?_
    obtain ⟨function, place, isFirst, isSecond⟩ := corresponds.function_eq pending.function
    rw [CompileState.tree_withTree, isFirst, isSecond]
    refine .behind fun _ _ _ _ => ?_
    refine ((Matches.declareParams function.params place).alike _ _).bind fun _ _ _ _ _ _ => ?_
    refine .returning reachable fun _ _ => .behind fun _ _ block _ => ?_
    refine .onState fun position scope _ _ _ _ _ => .behind fun _ _ _ _ => ?_
    refine .withTwin fun corresponds => .reading rfl rfl ?_
    rw [CompileState.tree_withTree, Tree.same_of_shape corresponds.shape (·.alwaysLeaves block)
      fun tree => tree.alwaysLeaves_shape block]
    exact .ite (fun _ => .failedThen place.places) fun _ =>
      .setBody pending.function block scope.locals

/-! ## Programs -/

/-- A whole program. -/
theorem Alike.program :
    Alike twins 0 state other
      (fun _ tree twin => twin.shape = tree.shape ∧ twins.Placed tree twin) Compile.program
      Compile.program := by
  unfold Compile.program
  refine Alike.scan.bind ?_
  rintro _ _ _ _ _ ⟨found, rfl, rfl⟩
  refine ((Matches.resolveParents found.classes).alike _ _).bind fun _ _ _ _ _ _ => ?_
  refine .bind (M := Pends twins) ?_ ?_
  · refine .foldlM found.classes ?_ ⟨rfl, nofun, nofun⟩
    rintro item _ _ pending _ ⟨rfl, returnable⟩
    exact .declareMembers item returnable
  rintro _ _ _ pending _ ⟨rfl, returnable⟩
  refine (Alike.mapM found.functions fun start member state other =>
    .declareFunction (found.inside start member)).bind ?_
  rintro _ _ _ bodies _ ⟨rfl, reachable⟩
  refine .withTwin fun _ => .reading rfl rfl (Alike.setDispatchTables.bind fun _ _ _ _ _ _ => ?_)
  have initials := Matches.forM pending.initials fun initial member =>
    .compileInitial (returnable.initials initial member)
  have started : ∀ body ∈ pending.bodies ++ bodies, Reachable twins 1 body.body :=
    List.forall_mem_append.mpr ⟨returnable.bodies, reachable⟩
  have compiled := Matches.forM (pending.bodies ++ bodies) fun body member =>
    .compileBody (started body member)
  refine .behind fun _ _ _ _ => .behind fun _ _ _ _ => ?_
  exact .withTwin fun corresponds =>
    .reading rfl rfl (.pure ⟨corresponds.shape, corresponds.placed⟩)

end Compile

/-! ## Texts that read the same -/

/-- Two compilations accept trees of one shape, or end with one error at corresponding places. -/
inductive Compile.Agree (list other : TokenList) :
    Except CompileError Tree → Except CompileError Tree → Prop where
  | accepted
      {tree twin : Tree} :
      twin.shape = tree.shape →
      Agree list other (.ok tree) (.ok twin)
  | refused
      {code : ErrorCode}
      {left right : Span} :
      list.Places other left right →
      Agree list other (.error ⟨code, left⟩) (.error ⟨code, right⟩)

/-- How compilations over lists of several tokens that read the same end. -/
theorem Twins.outcomes (twins : Twins) :
    Compile.Outcomes twins 0 {}
      (fun _ tree twin => twin.shape = tree.shape ∧ twins.Placed tree twin)
      (Compile.program twins.first {})
      (Compile.program twins.second (CompileState.withTree {} {})) :=
  Compile.Alike.program
    { shape := rfl
      placed := ⟨.empty, .empty, .empty, .empty⟩
      least := Nat.zero_le _
      inside := Nat.lt_of_succ_lt twins.several }

/-- Compilations over lists of several tokens that read the same agree. -/
theorem Twins.compile_agree (twins : Twins) :
    Compile.Agree twins.list twins.other (compile twins.registry twins.list)
      (compile twins.registry twins.other) := by
  have outcomes := twins.outcomes
  unfold compile
  change Compile.Agree _ _ ((Compile.program twins.first {}).map (·.1))
    ((Compile.program twins.second (CompileState.withTree {} {})).map (·.1))
  revert outcomes
  generalize Compile.program twins.first {} = taken,
    Compile.program twins.second (CompileState.withTree {} {}) = taken'
  rintro (⟨-, -, shape, -⟩ | places)
  · exact .accepted shape
  · exact .refused places

/-- Nothing is declared in front of the mark of the end. -/
theorem Compile.program_of_end
    {context : CompileContext}
    (isEnd : (context.token 0).kind = .endOfText) :
    program context {} = .ok ({}, {}) := by
  have ended : atEnd context {} = .ok (true, {}) := by
    have looked : atEnd context {} = .ok ((context.token 0).kind == .endOfText, {}) := rfl
    rw [looked, isEnd]
    rfl
  have scanned : scan context {} = .ok ({}, {}) := by
    unfold scan
    rw [loop_eq]
    refine loopWithin_done ?_
    rw [bind_eq ended]
    rfl
  unfold program
  rw [bind_eq scanned]
  rfl

/-- A text without tokens is an empty program. -/
theorem compile_of_size_le
    {registry : Registry}
    {source : String}
    (single : (TokenList.ofSource registry.constants source).size ≤ 1) :
    compile registry (TokenList.ofSource registry.constants source) = .ok {} := by
  have ended :
      (CompileContext.mk (TokenList.ofSource registry.constants source).tokens registry).Ended :=
    (Scan.tokensFrom_marked _ _ _).ended
  have isEnd :
      ((CompileContext.mk (TokenList.ofSource registry.constants source).tokens registry).token
        0).kind = .endOfText :=
    Decidable.byContradiction fun goesOn => Nat.not_lt_of_le single (ended.lt_size goesOn)
  unfold compile
  change (Compile.program _ {}).map (·.1) = _
  rw [Compile.program_of_end isEnd]
  rfl

/-- Compilations of texts whose tokens read the same agree. -/
theorem TokenList.compile_agree
    {registry : Registry}
    {source other : String}
    (words :
      (ofSource registry.constants other).words = (ofSource registry.constants source).words) :
    Compile.Agree (ofSource registry.constants source) (ofSource registry.constants other)
      (compile registry (ofSource registry.constants source))
      (compile registry (ofSource registry.constants other)) := by
  by_cases several : 1 < (ofSource registry.constants source).size
  · exact Twins.compile_agree
      { registry, words, several
        list := ofSource registry.constants source
        other := ofSource registry.constants other
        ordered := ofSource_ordered registry.constants source
        otherOrdered := ofSource_ordered registry.constants other }
  · -- The only token is the mark of the end, behind which there is nothing to advance to.
    have single := Nat.le_of_not_lt several
    have otherSingle := TokenList.size_of_words words ▸ single
    rw [compile_of_size_le single, compile_of_size_le otherSingle]
    exact .accepted rfl

/-!
## Snapshots of twin programs

Texts whose tokens read the same have one signature, and a snapshot is checked
against their trees alike.  So a run of one text goes on over the other one.
-/

namespace TokenList

variable {list other : TokenList}

/-- The texts of tokens are part of what is read. -/
theorem textAt_of_words
    (words : other.words = list.words)
    (index : Nat) :
    other.textAt index = list.textAt index := by
  have found : (other.tokens[index]?).map Token.word = (list.tokens[index]?).map Token.word := by
    simpa [TokenList.words] using congrArg (·[index]?) words
  unfold textAt
  cases here : list.tokens[index]? <;> cases there : other.tokens[index]? <;>
    simp [here, there, Token.word] at found ⊢
  exact found.2

/-- Lists that read the same have the same signatures. -/
theorem signature_of_words
    (words : other.words = list.words)
    (first last : Nat) :
    other.signature first last = list.signature first last := by
  have walks (links : Array Link) (bound : Nat) (position : Option Nat) (started : Bool)
      (register : UInt32) :
      other.readTexts links last bound position started register =
        list.readTexts links last bound position started register := by
    induction bound generalizing position started register with
    | zero => rfl
    | succ bound inductionHypothesis =>
        cases position with
        | none => rfl
        | some index => simp only [readTexts, textAt_of_words words, inductionHypothesis]
  unfold signature links
  rw [walks, size_of_words words]

/-- Lists that read the same have the same signature as a whole. -/
theorem wholeSignature_of_words (words : other.words = list.words) :
    other.wholeSignature = list.wholeSignature := by
  unfold wholeSignature
  rw [size_of_words words, signature_of_words words]

end TokenList

/-- A snapshot is restored over trees of one shape alike. -/
theorem Machine.restore_of_shape
    {tree twin : Tree}
    (shape : twin.shape = tree.shape)
    (snapshot : Snapshot)
    (signature : UInt32)
    (host : Host) :
    Machine.restore twin snapshot signature host =
      Machine.restore tree snapshot signature host :=
  Tree.same_of_shape shape (Machine.restore · snapshot signature host) fun tree =>
    Machine.restore_shape tree snapshot signature host

/-- A suspended machine is saved, and restored over any state of the host. -/
theorem Machine.Suspended.restores
    {setting : Setting}
    {machine : Machine}
    {tokens : TokenList}
    (suspended : machine.Suspended setting)
    (accepted : compile setting.registry tokens = .ok setting.tree)
    (keeps : setting.registry.KeepsHeaps setting.tree)
    (signature : UInt32)
    (host : Host) :
    ∃ snapshot restored,
      machine.save setting.tree signature = .ok snapshot ∧
        Machine.restore setting.tree snapshot signature host = .ok restored := by
  obtain ⟨sound, running, frame, below, frames, -⟩ := suspended.sound keeps
  obtain ⟨heapSound, sameBounds⟩ := sound.memory.heap.shut
  have carried : (machine.carriedTo host).Sound setting.tree := sound.withWorld heapSound sameBounds
  have goesOn : (machine.carriedTo host).frames ≠ [] := by
    change machine.frames ≠ []
    simp [frames]
  have unopened :
      ∀ object ∈ (machine.carriedTo host).memory.world.heap.objects, object.openFile = none := by
    intro object member
    obtain ⟨_, -, rfl⟩ := Array.mem_map.mp member
    rfl
  have known := suspended.known accepted keeps
  obtain ⟨snapshot, restored, saved, restores, -⟩ :=
    carried.restore_record running goesOn known unopened signature
  exact ⟨snapshot, restored, (save_carriedTo ..).symm.trans saved, restores⟩

/--
Only what is read of the tokens counts, not the blanks and comments between
them.  Two texts whose tokens read the same are compiled to trees that differ in
places only, or refused with one error at corresponding places.  They have one
signature, a snapshot is restored over both trees alike, and every suspended run
of the first text goes on over the tree of the second one.
-/
theorem compile_reads_words
    {registry : Registry}
    {source other : String}
    (words :
      (TokenList.ofSource registry.constants other).words =
        (TokenList.ofSource registry.constants source).words) :
    let list := TokenList.ofSource registry.constants source
    let twins := TokenList.ofSource registry.constants other
    Compile.Agree list twins (compile registry list) (compile registry twins) ∧
      twins.wholeSignature = list.wholeSignature ∧
      ∀ tree twin,
        compile registry list = .ok tree →
        compile registry twins = .ok twin →
        (∀ snapshot signature host,
          Machine.restore twin snapshot signature host =
            Machine.restore tree snapshot signature host) ∧
        ∀ (callDepth : UInt32) (machine : Machine) (host : Host),
          registry.KeepsHeaps tree →
          machine.Suspended ⟨tree, registry, callDepth⟩ →
          ∃ snapshot restored,
            machine.save tree list.wholeSignature = .ok snapshot ∧
              Machine.restore twin snapshot twins.wholeSignature host = .ok restored := by
  intro list twins
  have agree := TokenList.compile_agree words
  have signatures := TokenList.wholeSignature_of_words words
  refine ⟨agree, signatures, fun tree twin accepted twinAccepted => ?_⟩
  have shape : twin.shape = tree.shape := by
    rw [accepted, twinAccepted] at agree
    cases agree with
    | accepted shape => exact shape
  refine ⟨Machine.restore_of_shape shape, fun callDepth machine host keeps suspended => ?_⟩
  obtain ⟨snapshot, restored, saved, restores⟩ :=
    suspended.restores accepted keeps list.wholeSignature host
  refine ⟨snapshot, restored, saved, ?_⟩
  rw [signatures, Machine.restore_of_shape shape]
  exact restores

/-- A program without blanks. -/
def Compile.terse : String :=
  "int main()\x7bint x=1;return x;\x7d"

/-- The same program with blanks and comments. -/
def Compile.spacious : String :=
  " int main() \x7b\n  int x = 1; // one\n  return x; /* 1 */\n\x7d"

open Compile (terse spacious) in
/-- A run of a program without blanks goes on over the one with blanks and comments. -/
theorem compile_reads_words_spacious :
    let list := TokenList.ofSource Registry.standard.constants terse
    let twins := TokenList.ofSource Registry.standard.constants spacious
    let host : Host := { files := .inMemory default }
    twins.words = list.words ∧
      ∃ tree twin,
        compile .standard list = .ok tree ∧
          compile .standard twins = .ok twin ∧
          twin ≠ tree ∧
          ∃ snapshot restored,
            (Machine.start ⟨tree, .standard, 10⟩ ⟨0⟩ host).save tree list.wholeSignature =
                .ok snapshot ∧
              Machine.restore twin snapshot twins.wholeSignature host = .ok restored := by
  intro list twins host
  have facts :
      twins.words = list.words ∧
        (compile .standard list).isOk = true ∧
        (compile .standard twins).isOk = true ∧
        (Spelled.setting twins).tree ≠ (Spelled.setting list).tree ∧
        ((Spelled.setting list).tree.function? ⟨0⟩).isSome = true := by
    decide +kernel
  obtain ⟨words, accepted, twinAccepted, differ, known⟩ := facts
  have isTree := Spelled.setting_accepted accepted
  have isTwin := Spelled.setting_accepted twinAccepted
  obtain ⟨-, -, restores⟩ := compile_reads_words words
  obtain ⟨-, goesOn⟩ := restores _ _ isTree isTwin
  exact ⟨words, _, _, isTree, isTwin, differ, goesOn 10 _ host
    (Registry.standard_keepsHeaps _) (.started host known)⟩

end BotScript
