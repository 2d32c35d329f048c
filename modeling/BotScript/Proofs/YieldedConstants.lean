import BotScript.Proofs.BuildingPrograms
import BotScript.Proofs.SpelledProgram
import BotScript.Proofs.StepOutcomes
import BotScript.Proofs.TextDepth
import BotScript.Proofs.Trace
import BotScript.Proofs.Turn

namespace BotScript

/-!
# What constants yield

While a program is compiled, a constant is folded in one go; when the program runs, frames
evaluate the same expression part by part.  Both have the same result, although the frames
skip what an operator does not need and leave the operands of prefix operators as they are.
-/

/-! ## Constants and the heap -/

/-- What refers to nothing is converted in the same way over every heap. -/
theorem Heap.convert_scalar
    {value : Value}
    (scalar : value.refs = [])
    (heap other : Heap)
    (source target : Ty) :
    heap.convert value source target = other.convert value source target := by
  have text := Heap.textWithin_scalar scalar
  unfold Heap.convert Heap.convertWhile
  cases value with
  | array | object => cases scalar
  | _ => cases target <;> simp only [text]

namespace Tree

/-- One expression is a part of another one. -/
def IsPart (tree : Tree) (whole part : ExprId) : Prop :=
  ∃ node, tree.expr? whole = some node ∧ part ∈ node.kind.children

/-- A converted constant refers to nothing. -/
theorem convertConstant_refs
    {value result : Value}
    {source target : Ty}
    (scalar : value.refs = [])
    (converted : convertConstant value source target = .ok result) :
    result.refs = [] := by
  have text := Heap.textWithin_scalar scalar
  unfold convertConstant Heap.convert Heap.convertWhile at converted
  cases value with
  | array | object => cases scalar
  | _ => cases target <;> simp only [text] at converted <;> cases converted <;> rfl

/-- A constant refers to nothing. -/
theorem constant?_refs
    {tree : Tree}
    {id : ExprId}
    {value : Value}
    (constant : tree.constant? id = .ok (some value)) :
    value.refs = [] := by
  have within (bound : Nat) :
      ∀ id value, tree.constantWithin bound id = .ok (some value) → value.refs = [] := by
    induction bound with
    | zero =>
        intro id value constant
        cases constant
    | succ bound inductionHypothesis =>
        intro id value constant
        rw [constantWithin] at constant
        revert constant
        generalize tree.expr id = node
        obtain ⟨kind, ty, place⟩ := node
        intro constant
        cases kind with
        | literal content =>
            cases constant
            cases content <;> rfl
        | unary op operand =>
            obtain ⟨_, -, isResult⟩ := constantOf_unary constant
            exact UnaryOp.apply_refs isResult
        | binary op operandType left right =>
            obtain ⟨_, _, -, -, isResult⟩ := constantOf_binary constant
            exact BinaryOp.apply_refs isResult
        | logical op left right =>
            obtain ⟨_, _, truth, other, -, -, -, -, rfl⟩ := constantOf_logical constant
            rfl
        | conditional condition whenTrue whenFalse =>
            obtain ⟨_, truth, -, -, isBranch⟩ := constantOf_conditional constant
            obtain ⟨first, isConstant, converted⟩ := constantAs_ok isBranch
            exact convertConstant_refs (inductionHypothesis _ _ isConstant) converted
        | _ => cases constant
  exact within _ id value constant

end Tree

/-! ## Steps that only read -/

namespace Step

variable {α β : Type} {memory : Memory}

/-- A step delivers a result and leaves the memory as it is. -/
def Yields (memory : Memory) (step : Step α) (result : α) : Prop :=
  step.run.run memory = (.ok result, memory)

namespace Yields

/-- A result that needs no step. -/
theorem pure (result : α) : Yields memory (Pure.pure result) result :=
  rfl

/-- A step and what follows it. -/
theorem bind
    {first : Step α}
    {next : α → Step β}
    {middle : α}
    {result : β}
    (taken : Yields memory first middle)
    (rest : Yields memory (next middle) result) :
    Yields memory (first >>= next) result :=
  Results.bind taken rest

/-- A part that the program has. -/
theorem part
    {found : Option α}
    {result : α}
    (isFound : found = some result) :
    Yields memory (Step.part found) result :=
  Results.part isFound

/-- The result of an operation that succeeds. -/
theorem ofExcept
    {outcome : Except ErrorCode α}
    {result : α}
    (succeeds : outcome = .ok result) :
    Yields memory (Step.ofExcept outcome) result := by
  subst succeeds
  rfl

/-- A truth value that a condition has delivered. -/
theorem conditionOf
    {value : Value}
    {truth : Bool}
    (isTruth : value.truth = .ok truth) :
    Yields memory (Step.conditionOf (some (.value value))) truth :=
  (pure value).bind (ofExcept isTruth)

/-- The static type of an expression. -/
theorem typeOf
    {tree : Tree}
    {id : ExprId}
    (inside : id.index < tree.exprs.size) :
    Yields memory (Step.typeOf tree id) (tree.expr id).ty := by
  have found : tree.expr? id = some (tree.expr id) := by
    rw [Tree.expr, Tree.expr?, Array.getElem?_eq_getElem inside]
    rfl
  exact (part found).bind (pure _)

/-- A constant is converted as it is without a heap. -/
theorem convert
    {value result : Value}
    {source target : Ty}
    (scalar : value.refs = [])
    (converted : Tree.convertConstant value source target = .ok result) :
    Yields memory (Step.convert value source target) result := by
  have succeeds : memory.world.heap.convert value source target = .ok result := by
    rw [Heap.convert_scalar scalar _ {}]
    unfold Tree.convertConstant at converted
    split at converted
    · next isConverted =>
      cases converted
      exact isConverted
    · cases converted
    · cases converted
  have checked :
      Yields memory (Step.ofChecked (memory.world.heap.convert value source target)) result := by
    rw [succeeds]
    rfl
  exact checked

/-- A constant becomes an operand as it is converted without a heap. -/
theorem operand
    {value result : Value}
    {source target : Ty}
    (scalar : value.refs = [])
    (converted : Tree.convertConstant value source target = .ok result) :
    Yields memory (Step.operand value source target) result := by
  unfold Step.operand
  split
  · next isReference =>
    have same : value = result := by
      cases target <;> cases isReference
      all_goals
        cases value with
        | array | object => cases scalar
        | _ => cases converted <;> rfl
    exact same ▸ pure value
  · exact convert scalar converted

end Yields

end Step

/-! ## Turns that only evaluate -/

/-- Whether an expression is a literal or an operator on its parts. -/
def ExprKind.isFoldable : ExprKind → Bool
  | .literal _ | .unary _ _ | .binary _ _ _ _ | .logical _ _ _ | .conditional _ _ _ => true
  | _ => false

namespace Machine

open Relation (ReflTransGen)
open Spelled (mark name word)

variable {setting : Setting}

/--
One turn of a machine that evaluates an expression above some frames: there are frames of
expressions only, no native is called, and nothing in the memory changes.
-/
structure Evaluates
    (setting : Setting) (below : List Frame) (machine next : Machine) : Prop where
  moved : machine.advance setting = .moved next
  calls : machine.hostCalls setting = []
  memory : next.memory = machine.memory
  frames :
    ∃ above, next.frames = above ++ below ∧
      ∀ frame ∈ above, ∃ id demand, frame.node = .expression id demand

/-- What is evaluated above a frame of an expression is evaluated above the frames below it. -/
theorem Evaluates.lift
    {frame : Frame}
    {below : List Frame}
    {machine next : Machine}
    {id : ExprId}
    {demand : Demand}
    (isNode : frame.node = .expression id demand)
    (evaluates : Evaluates setting (frame :: below) machine next) :
    Evaluates setting below machine next where
  moved := evaluates.moved
  calls := evaluates.calls
  memory := evaluates.memory
  frames := by
    obtain ⟨above, isAbove, areExpressions⟩ := evaluates.frames
    refine ⟨above ++ [frame], by simpa using isAbove, fun other isOther => ?_⟩
    obtain isOther | isOther := List.mem_append.mp isOther
    · exact areExpressions other isOther
    · exact ⟨id, demand, List.mem_singleton.mp isOther ▸ isNode⟩

/--
A frame delivers a value whatever the memory and the frames below it are: all turns until
then only evaluate.
-/
def Delivers
    (setting : Setting) (frame : Frame) (incoming : Option Completion) (value : Value) : Prop :=
  ∀ memory below outcome steps,
    ReflTransGen (Evaluates setting below)
      ⟨memory, frame :: below, incoming, outcome, steps⟩
      ⟨memory, below, some (.value value), outcome, steps⟩

section Turns

variable {frame : Frame} {id part : ExprId} {node : Expr} {incoming : Option Completion}
  {value partValue : Value}
  (isNode : frame.node = .expression id .value)
  (found : setting.tree.expr? id = some node)
  (foldable : node.kind.isFoldable = true)

include isNode found foldable

/-- A frame of a literal or of an operator is no call of a native. -/
theorem callsHost_of_foldable : frame.callsHost setting.tree = false := by
  have isExpr : setting.tree.expr id = node := congrArg (Option.getD · default) found
  unfold Frame.callsHost
  rw [isNode]
  dsimp only
  rw [isExpr]
  cases isKind : node.kind <;> first | rfl | (rw [isKind] at foldable; cases foldable)

/-- A frame of a literal or of an operator calls no native. -/
theorem hostCall?_of_foldable (memory : Memory) :
    frame.hostCall? setting incoming memory = none := by
  have quiet : Step.Yields memory (Step.hostCallOf setting.tree frame incoming) none := by
    unfold Step.hostCallOf
    rw [isNode]
    refine (Step.Yields.part found).bind ?_
    cases isKind : node.kind <;>
      first | exact .pure none | (rw [isKind] at foldable; cases foldable)
  unfold Frame.hostCall?
  rw [quiet]

/-- The turn of such a frame is its step over the memory as it is. -/
theorem advance_of_foldable
    {memory : Memory}
    {taken : Except Interrupt Move}
    (results :
      Step.Results memory (Step.expression setting frame id .value incoming) taken memory)
    (below : List Frame)
    (outcome : Outcome)
    (steps : UInt64) :
    advance setting ⟨memory, frame :: below, incoming, outcome, steps⟩ =
      afterMove frame below outcome steps (Step.settled setting.tree frame taken, memory) := by
  have same :
      Step.ofFrame setting frame incoming = Step.expression setting frame id .value incoming := by
    unfold Step.ofFrame
    rw [isNode]
  rw [advance_cons, readyMemory, callsHost_of_foldable isNode found foldable,
    if_neg Bool.false_ne_true]
  unfold Frame.play
  rw [same, results]

/-- A turn that completes such a frame. -/
theorem evaluates_complete
    {memory : Memory}
    {taken : Except Interrupt Move}
    {completion : Completion}
    (results :
      Step.Results memory (Step.expression setting frame id .value incoming) taken memory)
    (completes : Step.settled setting.tree frame taken = .ok (.complete completion))
    (below : List Frame)
    (outcome : Outcome)
    (steps : UInt64) :
    Evaluates setting below
      ⟨memory, frame :: below, incoming, outcome, steps⟩
      ⟨memory, below, some completion, outcome, steps⟩ := by
  have unowned : memoryAfter frame memory = memory := by
    unfold memoryAfter
    rw [isNode]
    rfl
  refine ⟨?_, ?_, rfl, [], rfl, List.forall_mem_nil _⟩
  · rw [advance_of_foldable isNode found foldable results, completes]
    change Turn.moved ⟨memoryAfter frame memory, _, _, _, _⟩ = _
    rw [unowned]
  · unfold hostCalls
    dsimp only
    rw [hostCall?_of_foldable isNode found foldable]
    rfl

/-- A turn that has a part of such a frame evaluated. -/
theorem evaluates_push
    {memory : Memory}
    {later : Frame}
    (sameNode : later.node = frame.node)
    (yields : Step.Yields memory (Step.expression setting frame id .value incoming)
      (Step.pushExpression later part .value))
    (below : List Frame)
    (outcome : Outcome)
    (steps : UInt64) :
    Evaluates setting below
      ⟨memory, frame :: below, incoming, outcome, steps⟩
      ⟨memory, .enter (.expression part .value) later.act :: later :: below, none, outcome,
        steps⟩ := by
  refine ⟨?_, ?_, rfl, [.enter (.expression part .value) later.act, later], rfl, ?_⟩
  · exact advance_of_foldable isNode found foldable yields below outcome steps
  · unfold hostCalls
    dsimp only
    rw [hostCall?_of_foldable isNode found foldable]
    rfl
  · exact List.forall_mem_cons.mpr ⟨⟨part, .value, rfl⟩,
      List.forall_mem_singleton.mpr ⟨id, .value, sameNode.trans isNode⟩⟩

/-- A step that completes a frame. -/
theorem Delivers.ofStep
    (yields : ∀ memory, Step.Yields memory (Step.expression setting frame id .value incoming)
      (.complete (.value value))) :
    Delivers setting frame incoming value :=
  fun memory below outcome steps =>
    .single (evaluates_complete isNode found foldable (yields memory) rfl below outcome steps)

/-- A step that has a part evaluated first. -/
theorem Delivers.behind
    (later : Frame)
    (sameNode : later.node = frame.node)
    (yields : ∀ memory, Step.Yields memory (Step.expression setting frame id .value incoming)
      (Step.pushExpression later part .value))
    (delivers : Delivers setting (.enter (.expression part .value) later.act) none partValue)
    (rest : Delivers setting later (some (.value partValue)) value) :
    Delivers setting frame incoming value := by
  intro memory below outcome steps
  have entered := evaluates_push isNode found foldable sameNode (yields memory) below outcome steps
  have evaluated :=
    ReflTransGen.mono (fun _ _ => Evaluates.lift (sameNode.trans isNode)) _ _
      (delivers memory (later :: below) outcome steps)
  exact (ReflTransGen.head entered evaluated).trans (rest memory below outcome steps)

end Turns

/-- A frame of a constant delivers its value. -/
theorem delivers_constant
    (partsFirst : setting.tree.PartsFirst)
    {id : ExprId}
    {value : Value}
    (operates : ∀ part, ReflTransGen setting.tree.IsPart id part → ∀ node,
      setting.tree.expr? part = some node → setting.tree.Operates node.ty node.kind)
    (inside : id.index < setting.tree.exprs.size)
    (constant : setting.tree.constant? id = .ok (some value))
    (act : UInt32) :
    Delivers setting (.enter (.expression id .value) act) none value := by
  induction isIndex : id.index using Nat.strong_induction_on generalizing id value with
  | _ index inductionHypothesis =>
    subst isIndex
    obtain ⟨node, found⟩ : ∃ node, setting.tree.expr? id = some node :=
      ⟨_, Array.getElem?_eq_getElem inside⟩
    have isExpr : setting.tree.expr id = node := congrArg (Option.getD · default) found
    have isOperator := operates id .refl node found
    rw [Tree.constant?_eq partsFirst inside, isExpr] at constant
    -- A part is a constant of its own, which frames of the part deliver.
    have part {child : ExprId} {partValue : Value} (isChild : child ∈ node.kind.children)
        (isConstant : setting.tree.constant? child = .ok (some partValue)) :
        child.index < setting.tree.exprs.size ∧
          Delivers setting (.enter (.expression child .value) act) none partValue := by
      have earlier := partsFirst id.index node found child isChild
      have there := Nat.lt_trans earlier inside
      refine ⟨there, inductionHypothesis _ earlier (fun other isPart => ?_) there isConstant rfl⟩
      exact operates other (.head ⟨node, found, isChild⟩ isPart)
    obtain ⟨kind, ty, place⟩ := node
    cases kind with
    | literal content =>
        cases constant
        refine .ofStep rfl found rfl fun memory => ?_
        exact (Step.Yields.part found).bind (.pure _)
    | unary op operand =>
        obtain ⟨first, isOperand, isResult⟩ := Tree.constantOf_unary constant
        obtain ⟨partValue, isConstant, converted⟩ := Tree.constantAs_ok isOperand
        obtain ⟨fits, operable⟩ := isOperator
        obtain ⟨same, -⟩ := Tree.convertConstant_operand fits (operable partValue isConstant)
        cases same.symm.trans converted
        obtain ⟨-, delivers⟩ := part (List.mem_singleton_self operand) isConstant
        let entered : Frame := .enter (.expression id .value) act
        refine .behind rfl found rfl { entered with state := 1 } rfl (fun memory => ?_) delivers ?_
        · exact (Step.Yields.part found).bind (.pure _)
        · refine .ofStep rfl found rfl fun memory => ?_
          exact (Step.Yields.part found).bind
            ((Step.Yields.pure _).bind ((Step.Yields.ofExcept isResult).bind (.pure _)))
    | binary op operandType left right =>
        obtain ⟨first, second, isFirst, isSecond, isResult⟩ := Tree.constantOf_binary constant
        obtain ⟨leftValue, leftConstant, leftConverted⟩ := Tree.constantAs_ok isFirst
        obtain ⟨rightValue, rightConstant, rightConverted⟩ := Tree.constantAs_ok isSecond
        obtain ⟨leftInside, leftDelivers⟩ := part List.mem_cons_self leftConstant
        obtain ⟨rightInside, rightDelivers⟩ :=
          part (List.mem_cons_of_mem _ (List.mem_singleton_self right)) rightConstant
        have leftScalar := Tree.constant?_refs leftConstant
        have rightScalar := Tree.constant?_refs rightConstant
        let entered : Frame := .enter (.expression id .value) act
        refine .behind rfl found rfl { entered with state := 1 } rfl (fun memory => ?_)
          leftDelivers ?_
        · exact (Step.Yields.part found).bind (.pure _)
        refine .behind rfl found rfl { entered with values := [leftValue], state := 2 } rfl
          (fun memory => ?_) rightDelivers ?_
        · exact (Step.Yields.part found).bind ((Step.Yields.pure _).bind (.pure _))
        refine .ofStep rfl found rfl fun memory => ?_
        refine (Step.Yields.part found).bind ((Step.Yields.pure _).bind ?_)
        refine (Step.Yields.typeOf rightInside).bind ?_
        refine (Step.Yields.operand rightScalar rightConverted).bind ?_
        refine (Step.Yields.pure leftValue).bind ((Step.Yields.typeOf leftInside).bind ?_)
        refine (Step.Yields.operand leftScalar leftConverted).bind ?_
        exact (Step.Yields.ofExcept isResult).bind (.pure _)
    | logical op left right =>
        obtain ⟨leftValue, rightValue, truth, other, leftConstant, rightConstant, isTruth, isOther,
          rfl⟩ := Tree.constantOf_logical constant
        obtain ⟨-, leftDelivers⟩ := part List.mem_cons_self leftConstant
        obtain ⟨-, rightDelivers⟩ :=
          part (List.mem_cons_of_mem _ (List.mem_singleton_self right)) rightConstant
        let entered : Frame := .enter (.expression id .value) act
        refine .behind rfl found rfl { entered with state := 1 } rfl (fun memory => ?_)
          leftDelivers ?_
        · exact (Step.Yields.part found).bind (.pure _)
        -- The left operand decides, or else the result is that of the right one.
        by_cases decides : (truth == (op == .or)) = true
        · have same : (if op = .and then truth && other else truth || other) = truth := by
            cases op <;> cases truth <;> first | rfl | cases decides
          rw [same]
          refine .ofStep rfl found rfl fun memory => ?_
          refine (Step.Yields.part found).bind ((Step.Yields.conditionOf isTruth).bind ?_)
          rw [if_pos decides]
          exact .pure _
        · have same : (if op = .and then truth && other else truth || other) = other := by
            cases op <;> cases truth <;> first | rfl | exact absurd rfl decides
          rw [same]
          refine .behind rfl found rfl { entered with state := 2 } rfl (fun memory => ?_)
            rightDelivers ?_
          · refine (Step.Yields.part found).bind ((Step.Yields.conditionOf isTruth).bind ?_)
            rw [if_neg decides]
            exact .pure _
          · refine .ofStep rfl found rfl fun memory => ?_
            exact (Step.Yields.part found).bind ((Step.Yields.conditionOf isOther).bind (.pure _))
    | conditional condition whenTrue whenFalse =>
        obtain ⟨tested, truth, isConstant, isTruth, isBranch⟩ :=
          Tree.constantOf_conditional constant
        obtain ⟨chosen, isChosen, converted⟩ := Tree.constantAs_ok isBranch
        obtain ⟨-, delivers⟩ := part List.mem_cons_self isConstant
        have scalar := Tree.constant?_refs isChosen
        let entered : Frame := .enter (.expression id .value) act
        refine .behind rfl found rfl { entered with state := 1 } rfl (fun memory => ?_) delivers ?_
        · exact (Step.Yields.part found).bind (.pure _)
        have branch : (if truth then whenTrue else whenFalse) ∈ [condition, whenTrue, whenFalse] := by
          cases truth <;> simp
        obtain ⟨branchInside, branchDelivers⟩ := part branch isChosen
        refine .behind rfl found rfl { entered with aux := if truth then 0 else 1, state := 2 } rfl
          (fun memory => ?_) branchDelivers ?_
        · refine (Step.Yields.part found).bind ((Step.Yields.conditionOf isTruth).bind ?_)
          cases truth <;> exact .pure _
        · refine .ofStep rfl found rfl fun memory => ?_
          refine (Step.Yields.part found).bind ((Step.Yields.pure chosen).bind ?_)
          cases truth <;>
            exact (Step.Yields.typeOf branchInside).bind
              ((Step.Yields.convert scalar converted).bind (.pure _))
    | _ => cases constant

/--
Folding agrees with execution.  If an expression of an accepted program has been folded,
while the program was compiled or later, then a frame of it delivers the same value: until
then there are only frames of expressions above those below, no native is called, and
nothing in the memory changes.
-/
theorem folded_delivers
    {registry : Registry}
    {tokens : TokenList}
    {program earlier : Tree}
    {id : ExprId}
    {value : Value}
    (accepted : compile registry tokens = .ok program)
    (fits : program.Fits)
    (grows : setting.tree.Grows program)
    (grown : earlier.Grows setting.tree)
    (inside : id.index < earlier.exprs.size)
    (folded : earlier.constant? id = .ok (some value))
    (act : UInt32) :
    Delivers setting (.enter (.expression id .value) act) none value := by
  have offers : registry.Offers fun _ => True := ⟨fun _ _ _ _ => trivial, fun _ _ => trivial⟩
  obtain ⟨own, sound⟩ := (compile_built offers accepted).sound
  have partsFirst := grows.partsFirst sound.partsFirst
  refine delivers_constant partsFirst (fun part _ node found => ?_)
    (Nat.lt_of_lt_of_le inside grown.exprs_size) ?_ act
  · obtain ⟨there, -⟩ := Array.getElem?_eq_some_iff.mp found
    refine (grows.operates_iff partsFirst fun child isChild => ?_).mp
      ((sound.exprs part.index node (grows.exprs part.index node found)).operates fits)
    exact Nat.lt_trans (partsFirst part.index node found child isChild) there
  · rw [grown.constant? (grown.partsFirst partsFirst) inside]
    exact folded

/-- A program whose result is a constant: a letter behind a sign, made a floating-point number. -/
def foldedTokens : TokenList :=
  Spelled.program
    [ -- int main() { return true and !false ? -'a' : 2.5; }
      mark .intKw, name "main", mark .openPar, mark .closePar, mark .openBlock,
      mark .returnKw, mark .trueKw, mark .andKw, mark .logicalNot, mark .falseKw, mark .question,
      mark .minus, word .character "'a'", mark .colon, word .number "2.5", mark .semicolon,
      mark .closeBlock]

/-- The result is folded, and delivered. -/
theorem folded_delivers_letter :
    let setting := Spelled.setting foldedTokens
    (compile .standard foldedTokens).isOk = true ∧
      setting.tree.Fits ∧
      setting.tree.constant? ⟨7⟩ = .ok (some (.float ⟨0xC058400000000000⟩)) ∧
      ∀ act,
        Delivers setting (.enter (.expression ⟨7⟩ .value) act) none
          (.float ⟨0xC058400000000000⟩) := by
  intro setting
  have accepted : (compile .standard foldedTokens).isOk = true := by decide +kernel
  have sizes :
      setting.tree.exprs.size = 8 ∧ setting.tree.stmts.size = 2 ∧
        setting.tree.functions.size = 1 ∧ setting.tree.classes.size = 0 ∧
        setting.tree.methodKeys.size = 0 := by
    decide +kernel
  have fits : setting.tree.Fits := by
    obtain ⟨exprs, stmts, functions, classes, keys⟩ := sizes
    constructor <;> simp only [exprs, stmts, functions, classes, keys] <;> decide
  have inside : Id.index (⟨7⟩ : ExprId) < setting.tree.exprs.size := by
    rw [sizes.1]
    decide
  have folded : setting.tree.constant? ⟨7⟩ = .ok (some (.float ⟨0xC058400000000000⟩)) := by
    decide +kernel
  exact ⟨accepted, fits, folded,
    folded_delivers (Spelled.setting_accepted accepted) fits (.refl _) (.refl _) inside folded⟩

end Machine

end BotScript
