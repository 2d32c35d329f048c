import BotScript.Proofs.BoundedSlices
import BotScript.Proofs.CallCourses

namespace BotScript

/-!
# The order of calls

In every accepted program the receiver, the arguments and the initial values of fields are
evaluated in order, each once, in front of whatever they are for.
-/

/-- The sites of an accepted program can be counted, and fit the functions that they name. -/
theorem compile_callable
    {registry : Registry}
    {source : String}
    {tree : Tree}
    (short : source.utf8ByteSize < UInt32.size)
    (accepted : compile registry (TokenList.ofSource registry.constants source) = .ok tree)
    (fits : tree.Fits)
    (fields : tree.FieldsFit) :
    tree.Callable := by
  have built := compile_built registry.offers_all accepted
  obtain ⟨ended, size⟩ := CompileContext.ended_ofSource registry short
  have countable := built.countable ended size fits fields
  obtain ⟨⟨own, sound⟩, bodies, -⟩ := built
  refine ⟨countable, fun id function found index param isParam => ?_,
    fun index node found => (sound.exprs index node found).meets fits⟩
  have isFunction : function ∈ tree.functions := Array.mem_of_getElem? found
  have wellFormed :=
    (sound.functions function isFunction).wellFormed ended size fits
      (bodies fits function isFunction)
  obtain ⟨slot, isLocal⟩ := wellFormed.params index param isParam
  exact ⟨slot, (List.getElem?_eq_some_iff.mp isLocal).1⟩

namespace Machine

/--
In an accepted program, every machine that follows the entry of a call, of a new instance or of the
fields of an instance is at a stage of it, through suspensions and restores.  The parts begin in
their order, each once, and all parts up to the stage do.
-/
theorem attained_serves_in_order
    {registry : Registry}
    {source : String}
    {tree : Tree}
    {callDepth : UInt32}
    {machine : Machine}
    {node : Node}
    {act : UInt32}
    {below : List Frame}
    {site : Site}
    {chain : List Machine}
    (short : source.utf8ByteSize < UInt32.size)
    (accepted : compile registry (TokenList.ofSource registry.constants source) = .ok tree)
    (fits : tree.Fits)
    (fields : tree.FieldsFit)
    (attained : machine.Attained ⟨tree, registry, callDepth⟩)
    (frames : machine.frames = .enter node act :: below)
    (incoming : machine.incoming = none)
    (isSite : node.site? tree = some site)
    (links :
      List.IsChain
        (fun machine next =>
          below.length < machine.frames.length ∧
            Follows ⟨tree, registry, callDepth⟩ machine next)
        (machine :: chain)) :
    ∃ stages : List Stage,
      stages.length = chain.length ∧
        List.IsChain (Serves ⟨tree, registry, callDepth⟩ site below.length)
          ((.entered, machine) :: stages.zip chain) ∧
        begun below.length (machine :: chain) <+: site.parts tree ∧
        ∀ last ∈ (Stage.entered :: stages).getLast?, (∀ completion, last ≠ .done completion) →
          begun below.length (machine :: chain) ++ last.left (site.parts tree) =
            site.parts tree := by
  have callable := compile_callable short accepted fits fields
  have entered : Stage.entered.At tree site below.length machine :=
    .entered frames rfl isSite incoming rfl rfl rfl
  exact entered.serves callable attained links

/-! ## A new instance that is saved and restored while an argument is evaluated -/

/-- A turn of a machine, or a save and a restore of it. -/
inductive Happening where
  | turn
  | reload

/-- The machine that follows when something happens. -/
def Happening.next? (setting : Setting) (machine : Machine) : Happening → Option Machine
  | .turn =>
      match machine.advance setting with
      | .moved next | .counted next => some next
      | .ended _ => none
  | .reload =>
      match machine.save setting.tree 0 with
      | .error _ => none
      | .ok snapshot => (restore setting.tree snapshot 0 machine.host).toOption

/-- The machines that follow while there are more frames than a number of them. -/
def course? (setting : Setting) (depth : Nat) : List Happening → Machine → Option (List Machine)
  | [], _ => some []
  | happening :: rest, machine =>
      if depth < machine.frames.length then do
        let next ← happening.next? setting machine
        let chain ← course? setting depth rest next
        some (next :: chain)
      else none

/-- What happens leads to machines that follow each other. -/
theorem Happening.follows
    {setting : Setting}
    {machine next : Machine}
    {happening : Happening}
    (leads : happening.next? setting machine = some next) :
    Follows setting machine next := by
  cases happening with
  | turn =>
      unfold next? at leads
      cases turn : machine.advance setting with
      | moved other =>
          rw [turn] at leads
          cases leads
          exact .goes (.moved turn)
      | counted other =>
          rw [turn] at leads
          cases leads
          exact .goes (.counted turn)
      | ended last =>
          rw [turn] at leads
          cases leads
  | reload =>
      unfold next? at leads
      cases saved : machine.save setting.tree 0 with
      | error error =>
          rw [saved] at leads
          cases leads
      | ok snapshot =>
          rw [saved] at leads
          dsimp only at leads
          cases restores : restore setting.tree snapshot 0 machine.host with
          | error error =>
              rw [restores] at leads
              cases leads
          | ok other =>
              rw [restores] at leads
              cases leads
              exact .restored saved restores

/-- A course is a chain of machines that follow each other. -/
theorem course?_links
    {setting : Setting}
    {depth : Nat}
    {happenings : List Happening}
    {machine : Machine}
    {chain : List Machine}
    (isCourse : course? setting depth happenings machine = some chain) :
    List.IsChain
      (fun machine next => depth < machine.frames.length ∧ Follows setting machine next)
      (machine :: chain) := by
  induction happenings generalizing machine chain with
  | nil =>
      cases isCourse
      exact .singleton _
  | cons happening rest inductionHypothesis =>
      unfold course? at isCourse
      split at isCourse
      · next isOpen =>
        obtain ⟨next, leads, isCourse⟩ := Option.bind_eq_some_iff.mp isCourse
        obtain ⟨others, areOthers, same⟩ := Option.bind_eq_some_iff.mp isCourse
        cases same
        exact List.isChain_cons_cons.mpr
          ⟨⟨isOpen, Happening.follows leads⟩, inductionHypothesis areOthers⟩
      · cases isCourse

/-- An instance with an initial value and a constructor, whose first argument is a call. -/
def instanceText : String :=
  "int g(int n)\x7breturn n;\x7dclass A\x7bint x=g(1);A(int n,int m=4)\x7b\x7d\x7d" ++
    "void main()\x7bnew A(g(3));\x7d"

/-- What the program is compiled from. -/
def instanceTokens : TokenList :=
  TokenList.ofSource Registry.standard.constants instanceText

/-- What the program runs over. -/
def instanceSetting : Setting :=
  ⟨(compile .standard instanceTokens).toOption.getD {}, .standard, 8⟩

/-- The machine that a number of turns leads to. -/
def afterTurns (setting : Setting) (turns : Nat) (machine : Machine) : Machine :=
  (machine.runFor setting turns none).2

/-- Turns lead to a state of the program. -/
theorem Attained.afterTurns
    {setting : Setting}
    {machine : Machine}
    (attained : machine.Attained setting)
    (turns : Nat) :
    (machine.afterTurns setting turns).Attained setting :=
  attained.runFor turns none

/-- The expression of the new instance is entered after six turns. -/
def instanceEntered : Machine :=
  (start instanceSetting ⟨2⟩ default).afterTurns instanceSetting 6

/-- The program is saved and restored inside of the argument, and inside of the constructor. -/
def instanceHappenings : List Happening :=
  List.replicate 10 .turn ++ .reload :: List.replicate 24 .turn ++ .reload ::
    List.replicate 4 .turn

/-- What there is to see of the program. -/
theorem instance_facts :
    (compile .standard instanceTokens).isOk = true ∧
      [instanceSetting.tree.exprs.size, instanceSetting.tree.stmts.size,
          instanceSetting.tree.functions.size, instanceSetting.tree.classes.size,
          instanceSetting.tree.methodKeys.size] = [8, 5, 3, 1, 0] ∧
      instanceSetting.tree.classes.toList.map (·.statics.length) = [0] ∧
      (instanceSetting.tree.instanceFields (Id.ofIndex 0)).length = 1 ∧
      (Node.expression ⟨7⟩ .value).site? instanceSetting.tree =
        some (.new ⟨0⟩ (some (.user ⟨0⟩)) [⟨6⟩, ⟨1⟩]) ∧
      instanceEntered.frames.head? = some (.enter (.expression ⟨7⟩ .value) 1) ∧
      instanceEntered.incoming = none ∧
      (course? instanceSetting instanceEntered.frames.tail.length instanceHappenings
            instanceEntered).map
          (fun chain => ((chain.length, chain.getLast?.bind (·.incoming)),
            begun instanceEntered.frames.tail.length (instanceEntered :: chain))) =
        some ((40, some (.value (.object ⟨0⟩))), [⟨6⟩, ⟨1⟩]) := by
  decide +kernel

/-- The argument and the default are evaluated, and the expression ends with the instance. -/
theorem attained_serves_in_order_instance :
    instanceText.utf8ByteSize < UInt32.size ∧
      compile .standard (TokenList.ofSource Registry.standard.constants instanceText) =
        .ok instanceSetting.tree ∧
      instanceSetting.tree.Fits ∧
      instanceSetting.tree.FieldsFit ∧
      instanceEntered.Attained ⟨instanceSetting.tree, .standard, 8⟩ ∧
      ∃ below : List Frame,
        instanceEntered.frames = .enter (.expression ⟨7⟩ .value) 1 :: below ∧
        instanceEntered.incoming = none ∧
        (Node.expression ⟨7⟩ .value).site? instanceSetting.tree =
          some (.new ⟨0⟩ (some (.user ⟨0⟩)) [⟨6⟩, ⟨1⟩]) ∧
        ∃ chain : List Machine,
          List.IsChain
              (fun machine next =>
                below.length < machine.frames.length ∧
                  Follows ⟨instanceSetting.tree, .standard, 8⟩ machine next)
              (instanceEntered :: chain) ∧
            chain.length = 40 ∧
            chain.getLast?.bind (·.incoming) = some (.value (.object ⟨0⟩)) ∧
            begun below.length (instanceEntered :: chain) = [⟨6⟩, ⟨1⟩] ∧
            ∃ stages : List Stage,
              stages.length = chain.length ∧
                List.IsChain
                  (Serves ⟨instanceSetting.tree, .standard, 8⟩
                    (.new ⟨0⟩ (some (.user ⟨0⟩)) [⟨6⟩, ⟨1⟩]) below.length)
                  ((.entered, instanceEntered) :: stages.zip chain) ∧
                begun below.length (instanceEntered :: chain) <+: [⟨6⟩, ⟨1⟩] ∧
                ∀ last ∈ (Stage.entered :: stages).getLast?,
                  (∀ completion, last ≠ .done completion) →
                    begun below.length (instanceEntered :: chain) ++ last.left [⟨6⟩, ⟨1⟩] =
                      [⟨6⟩, ⟨1⟩] := by
  obtain ⟨isOk, sizes, statics, instances, isSite, isFirst, incoming, course⟩ := instance_facts
  simp only [List.cons.injEq] at sizes
  obtain ⟨exprs, stmts, functions, classes, keys, -⟩ := sizes
  have short : instanceText.utf8ByteSize < UInt32.size := by decide +kernel
  have accepted : compile .standard instanceTokens = .ok instanceSetting.tree := by
    unfold instanceSetting
    cases found : compile .standard instanceTokens with
    | error error =>
        rw [found] at isOk
        cases isOk
    | ok tree => rfl
  have fits : instanceSetting.tree.Fits := by
    constructor <;> simp only [exprs, stmts, functions, classes, keys] <;> decide
  have fields : instanceSetting.tree.FieldsFit := by
    refine ⟨fun entry isEntry => ?_, fun index inside => ?_⟩
    · have isLength := List.mem_map_of_mem (f := (·.statics.length)) isEntry.val
      rw [statics, List.mem_singleton] at isLength
      rw [isLength]
      decide
    · rw [classes, Nat.lt_one_iff] at inside
      rw [inside, instances]
      decide
  have attained : instanceEntered.Attained ⟨instanceSetting.tree, .standard, 8⟩ :=
    (Attained.started ⟨2⟩ default).afterTurns 6
  obtain ⟨below, frames⟩ := List.head?_eq_some_iff.mp isFirst
  rw [frames, List.tail_cons] at course
  obtain ⟨chain, isCourse, same⟩ := Option.map_eq_some_iff.mp course
  obtain ⟨ends, isBegun⟩ := Prod.mk.inj same
  obtain ⟨length, result⟩ := Prod.mk.inj ends
  have links := course?_links isCourse
  exact ⟨short, accepted, fits, fields, attained, below, frames, incoming, isSite, chain, links,
    length, result, isBegun,
    attained_serves_in_order short accepted fits fields attained frames incoming isSite links⟩

end Machine

end BotScript
