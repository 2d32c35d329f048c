import BotScript.Proofs.TypedOperators

namespace BotScript

/-!
# Errors of constants

An expression of literals and operators has a value when it is folded, or an error.  Folding
evaluates both operands of a logical operator, frames evaluate the right one only if the left one
does not decide.  There is no other difference: unless an operator hides the error of its right
operand, folding has an error exactly if the frames of the expression raise it.
-/

open Relation (ReflTransGen)

/-! ## Expressions of literals and operators -/

/-- A literal as it stands in programs: its type keeps it, and has it as a value. -/
structure LiteralValue.IsOf (content : LiteralValue) (ty : Ty) : Prop where
  keeps : ty.Keeps (.ofLiteral content)
  form : Heap.HasForm {} ty (.ofLiteral content)
  there : ty = .boolean → content ≠ .nan

/-- A literal that is a truth value. -/
theorem LiteralValue.IsOf.isTruth
    {content : LiteralValue}
    (isOf : content.IsOf .boolean) :
    ∃ truth, Value.ofLiteral content = .bool truth := by
  obtain ⟨-, form, there⟩ := isOf
  cases content with
  | bool truth => exact ⟨truth, rfl⟩
  | nan => exact absurd rfl (there rfl)
  | int => cases form with | int _ isInteger => cases isInteger
  | float => cases form with | float _ isFloating => cases isFloating
  | str => cases form
  | null => cases form with | null isReference => cases isReference

/-- A failure of an operation whose result is used is its own. -/
theorem map_error
    {ε α β : Type}
    {outcome : Except ε α}
    {change : α → β}
    {fault : ε}
    (failed : outcome.map change = .error fault) :
    outcome = .error fault := by
  cases outcome with
  | ok result => cases failed
  | error other => exact congrArg Except.error (Except.error.inj failed)

/-- The values of a type are operands of the type itself. -/
theorem Ty.serves_self
    {ty : Ty}
    (notVoid : ty.isVoid = false) :
    ty.Serves ty := by
  cases ty with
  | void => cases notVoid
  | string => exact .inl rfl
  | boolean => exact .inr (.inl ⟨rfl, rfl⟩)
  | null | array | object => exact .inr (.inr (.inr ⟨rfl, rfl⟩))
  | _ => exact .inr (.inr (.inl ⟨rfl, rfl⟩))

/-- A prefix operator delivers a plain value of its type. -/
theorem UnaryOp.apply_plain
    {op : UnaryOp}
    {heap : Heap}
    {ty : Ty}
    {value result : Value}
    (form : heap.HasForm ty value)
    (applied : op.apply ty value = .ok result) :
    result.isPlain ty = true := by
  cases form with
  | bool content => cases op <;> cases applied <;> rfl
  | int content isInteger => cases op <;> cases applied <;> exact isInteger
  | float content isFloating => cases op <;> cases applied <;> exact isFloating
  | nan | str | null | array | object => cases op <;> cases applied

namespace Tree

variable {tree : Tree} {id child : ExprId}

/-- An expression of literals and operators with the types that the compiler gives them. -/
inductive IsConstant (tree : Tree) : ExprId → Prop where
  | literal {id : ExprId} {content : LiteralValue} {ty : Ty} {place : Span} :
      tree.expr? id = some ⟨.literal content, ty, place⟩ → content.IsOf ty → IsConstant tree id
  | unary {id operand : ExprId} {op : UnaryOp} {ty : Ty} {place : Span} :
      tree.expr? id = some ⟨.unary op operand, ty, place⟩ →
      Compile.unaryType? op (tree.expr operand).ty = some ty →
      IsConstant tree operand → IsConstant tree id
  | binary {id left right : ExprId} {op : BinaryOp} {operandType ty : Ty} {place : Span} :
      tree.expr? id = some ⟨.binary op operandType left right, ty, place⟩ →
      binaryTypes? op (tree.expr left).ty (tree.expr right).ty = some (operandType, ty) →
      IsConstant tree left → IsConstant tree right → IsConstant tree id
  | logical {id left right : ExprId} {op : LogicalOp} {place : Span} :
      tree.expr? id = some ⟨.logical op left right, .boolean, place⟩ →
      (tree.expr left).ty = .boolean → (tree.expr right).ty = .boolean →
      IsConstant tree left → IsConstant tree right → IsConstant tree id
  | conditional {id condition whenTrue whenFalse : ExprId} {ty : Ty} {place : Span} :
      tree.expr? id = some ⟨.conditional condition whenTrue whenFalse, ty, place⟩ →
      (tree.expr condition).ty = .boolean →
      tree.commonType? (tree.expr whenTrue).ty (tree.expr whenFalse).ty = some ty →
      IsConstant tree condition → IsConstant tree whenTrue → IsConstant tree whenFalse →
      IsConstant tree id

/-- A logical operator in an expression is decided by its left operand; its right one has an error. -/
def HidesError (tree : Tree) (id : ExprId) : Prop :=
  ∃ inner op left right ty place code,
    ReflTransGen tree.IsPart id inner ∧
      tree.expr? inner = some ⟨.logical op left right, ty, place⟩ ∧
      tree.constant? left = .ok (some (.bool (op == .or))) ∧ tree.constant? right = .error code

/-- What a part hides, the whole hides. -/
theorem HidesError.behind
    (isPart : tree.IsPart id child)
    (hides : tree.HidesError child) :
    tree.HidesError id := by
  obtain ⟨inner, op, left, right, ty, place, code, within, found⟩ := hides
  exact ⟨inner, op, left, right, ty, place, code, .head isPart within, found⟩

/-- A node of a tree is the one at its position. -/
theorem expr_of_expr?
    {node : Expr}
    (found : tree.expr? id = some node) :
    tree.expr id = node :=
  congrArg (Option.getD · default) found

/-- A node that is found is in the tree. -/
theorem inside_of_expr?
    {node : Expr}
    (found : tree.expr? id = some node) :
    id.index < tree.exprs.size :=
  (Array.getElem?_eq_some_iff.mp found).1

/-- Such an expression is in the tree. -/
theorem IsConstant.inside
    (constant : tree.IsConstant id) :
    id.index < tree.exprs.size := by
  cases constant <;> exact inside_of_expr? ‹_›

/-- The parts of such an expression are such expressions. -/
theorem IsConstant.part
    (constant : tree.IsConstant id)
    (isPart : tree.IsPart id child) :
    tree.IsConstant child := by
  obtain ⟨node, isNode, isChild⟩ := isPart
  cases constant with
  | literal found _ =>
      cases found.symm.trans isNode
      cases isChild
  | unary found _ operand =>
      cases found.symm.trans isNode
      obtain rfl := List.mem_singleton.mp isChild
      exact operand
  | binary found _ left right | logical found _ _ left right =>
      cases found.symm.trans isNode
      obtain rfl | isRight := List.mem_cons.mp isChild
      · exact left
      · exact List.mem_singleton.mp isRight ▸ right
  | conditional found _ _ condition whenTrue whenFalse =>
      cases found.symm.trans isNode
      simp only [ExprKind.children, List.mem_cons, List.not_mem_nil, or_false] at isChild
      obtain rfl | rfl | rfl := isChild
      · exact condition
      · exact whenTrue
      · exact whenFalse

/-- What is nested in such an expression is such an expression. -/
theorem IsConstant.within
    (constant : tree.IsConstant id)
    (within : ReflTransGen tree.IsPart id child) :
    tree.IsConstant child := by
  induction within with
  | refl => exact constant
  | tail _ isPart inductionHypothesis => exact inductionHypothesis.part isPart

/-! ## Types and values -/

/-- The types of the branches serve in the type of a conditional expression. -/
theorem commonType?_serves
    {left right ty : Ty}
    (fits : tree.commonType? left right = some ty) :
    left.Serves ty ∧ right.Serves ty := by
  have numbers {first second : Ty} {rank other : Nat} (isFirst : first.numericRank? = some rank)
      (isSecond : second.numericRank? = some other) : first.Serves second :=
    .inr (.inr (.inl ⟨by rw [Ty.isNumeric, isFirst]; rfl, by rw [Ty.isNumeric, isSecond]; rfl⟩))
  have references {first second : Ty} (isFirst : first.isReference = true)
      (isSecond : second.isReference = true) : first.Serves second :=
    .inr (.inr (.inr ⟨isFirst, isSecond⟩))
  unfold commonType? at fits
  split at fits
  · next same =>
    subst same
    split at fits
    · cases fits
    · next notVoid =>
      cases fits
      have serves := Ty.serves_self (Bool.eq_false_iff.mpr notVoid)
      exact ⟨serves, serves⟩
  · split at fits
    · next isLeft isRight =>
      split at fits <;> cases fits
      · exact ⟨numbers isLeft isLeft, numbers isRight isLeft⟩
      · exact ⟨numbers isLeft isRight, numbers isRight isRight⟩
    · split at fits
      · cases fits
        exact ⟨references rfl rfl, references rfl rfl⟩
      · cases fits
        exact ⟨references rfl rfl, references rfl rfl⟩
      · cases fits
        exact ⟨references rfl rfl, references rfl rfl⟩
      · cases fits
        exact ⟨references rfl rfl, references rfl rfl⟩
      · split at fits
        · split at fits
          · cases fits
            exact ⟨references rfl rfl, references rfl rfl⟩
          · split at fits
            · cases fits
              exact ⟨references rfl rfl, references rfl rfl⟩
            · cases fits
        · cases fits
      · split at fits <;> cases fits
        exact ⟨.inl rfl, .inl rfl⟩
      · split at fits <;> cases fits
        exact ⟨.inl rfl, .inl rfl⟩
      · cases fits

/-- A constant of a type that serves in another one is converted to it. -/
theorem convertConstant_serves
    {source target : Ty}
    {value : Value}
    (form : Heap.HasForm {} source value)
    (scalar : value.refs = [])
    (serves : source.Serves target) :
    ∃ result, convertConstant value source target = .ok result ∧
      Heap.HasForm {} target result := by
  have converted (converts : Heap.Converts {} value source target) :
      ∃ result, convertConstant value source target = .ok result ∧
        Heap.HasForm {} target result := by
    obtain ⟨result, isConverted, becomes⟩ := converts
    exact ⟨result, by rw [convertConstant, isConverted], becomes.typed.hasForm⟩
  obtain rfl | ⟨isBoolean, toBoolean⟩ | ⟨fromNumber, toNumber⟩ | ⟨fromReference, toReference⟩ :=
    serves
  · refine converted ((Heap.converts_text form).resolve_right fun endless => ?_)
    obtain ⟨-, failed, -⟩ := endless
    cases (Heap.textWithin_scalar scalar {} none _ source).symm.trans failed
  · subst isBoolean toBoolean
    exact converted (Heap.converts_same form (by decide))
  · exact converted (Heap.converts_number form fromNumber toNumber)
  · have notNumber := Bool.eq_false_iff.mp (Ty.isNumeric_of_isReference fromReference)
    cases form with
    | null _ =>
        refine ⟨.null, ?_, .null toReference⟩
        cases target <;> first | rfl | cases toReference
    | array | object => cases scalar
    | nan isScalar =>
        obtain isNumber | isBoolean := isScalar
        · exact absurd isNumber notNumber
        · rw [isBoolean] at fromReference
          cases fromReference
    | int _ isInteger => exact absurd (Ty.isNumeric_of_isInteger isInteger) notNumber
    | float _ isFloating =>
        cases source <;> first | exact absurd isFloating Bool.false_ne_true | cases fromReference
    | bool | str => cases fromReference

/-- The types of such an expression are those of an operator that keeps what its parts have. -/
theorem IsConstant.operates_of
    {node : Expr}
    (constant : tree.IsConstant id)
    (found : tree.expr? id = some node)
    (operable : ∀ part, tree.IsPart id part → tree.Operable part) :
    tree.Operates node.ty node.kind := by
  have operand {child : ExprId} (isChild : child ∈ node.kind.children) : tree.Operable child :=
    operable child ⟨node, found, isChild⟩
  cases constant with
  | literal isNode _ =>
      cases found.symm.trans isNode
      trivial
  | unary isNode fits _ =>
      cases found.symm.trans isNode
      exact ⟨fits, operand (List.mem_singleton_self _)⟩
  | binary isNode fits _ _ =>
      cases found.symm.trans isNode
      exact fits
  | logical isNode _ _ _ _ =>
      cases found.symm.trans isNode
      rfl
  | conditional isNode _ fits _ _ _ =>
      cases found.symm.trans isNode
      intro branch isBranch
      refine ⟨commonType?_widens fits ?_, operand (List.mem_cons_of_mem _ isBranch)⟩
      obtain rfl | isFalse := List.mem_cons.mp isBranch
      · exact .inl rfl
      · exact .inr (List.mem_singleton.mp isFalse ▸ rfl)

/-- The type of such an expression keeps its value. -/
theorem IsConstant.operable
    (partsFirst : tree.PartsFirst)
    (constant : tree.IsConstant id) :
    tree.Operable id := by
  induction isIndex : id.index using Nat.strong_induction_on generalizing id with
  | _ index inductionHypothesis =>
    subst isIndex
    intro value isValue
    obtain ⟨node, found⟩ : ∃ node, tree.expr? id = some node := by
      cases constant <;> exact ⟨_, ‹_›⟩
    have parts (part : ExprId) (isPart : tree.IsPart id part) : tree.Operable part := by
      have isConstant := constant.part isPart
      obtain ⟨whole, isWhole, isChild⟩ := isPart
      exact inductionHypothesis _ (partsFirst id.index whole isWhole part isChild) isConstant rfl
    have operates := constant.operates_of found parts
    rw [constant?_eq partsFirst (inside_of_expr? found), expr_of_expr? found] at isValue
    rw [expr_of_expr? found]
    obtain ⟨kind, ty, place⟩ := node
    refine constantOf_keeps operates (fun content isLiteral => ?_) isValue
    dsimp only at isLiteral
    subst isLiteral
    cases constant with
    | literal isNode isOf =>
        cases found.symm.trans isNode
        exact isOf.keeps
    | unary isNode | binary isNode | logical isNode | conditional isNode =>
        cases found.symm.trans isNode

/-- An operand that has a value has the value to which it is converted. -/
theorem constantAs_value
    {parts : ExprId → Constancy}
    {ty : Ty}
    {value result : Value}
    (isValue : parts id = .ok (some value))
    (converted : convertConstant value (tree.expr id).ty ty = .ok result) :
    tree.constantAs parts id ty = .ok (some result) := by
  rw [constantAs, isValue]
  change (do return some (← convertConstant value (tree.expr id).ty ty)) = _
  rw [converted]
  rfl

/-- An expression is folded to a value of its type; a truth value is no mark for a missing one. -/
structure HasValue (tree : Tree) (id : ExprId) (value : Value) : Prop where
  constant : tree.constant? id = .ok (some value)
  form : Heap.HasForm {} (tree.expr id).ty value
  truth : (tree.expr id).ty = .boolean → ∃ truth, value = .bool truth

namespace HasValue

variable {value : Value}

/-- What is folded to a plain value of its type has that value. -/
theorem ofPlain
    (constant : tree.constant? id = .ok (some value))
    (plain : value.isPlain (tree.expr id).ty = true) :
    tree.HasValue id value := by
  refine ⟨constant, Heap.hasForm_of_isPlain plain, fun isBoolean => ?_⟩
  rw [isBoolean] at plain
  cases value with
  | bool content => exact ⟨content, rfl⟩
  | _ => cases plain

/-- What is folded to a value is folded to an operand of a type in which its own one serves. -/
theorem constantAs
    {ty : Ty}
    (has : tree.HasValue id value)
    (serves : (tree.expr id).ty.Serves ty) :
    ∃ result, tree.constantAs tree.constant? id ty = .ok (some result) ∧
      convertConstant value (tree.expr id).ty ty = .ok result ∧ Heap.HasForm {} ty result ∧
        (ty = .boolean → ∃ truth, result = .bool truth) := by
  obtain ⟨result, converted, form⟩ :=
    convertConstant_serves has.form (constant?_refs has.constant) serves
  refine ⟨result, constantAs_value has.constant converted, converted, form, ?_⟩
  · rintro rfl
    have isBoolean : (tree.expr id).ty = .boolean := by
      obtain isText | ⟨isBoolean, -⟩ | ⟨-, isNumber⟩ | ⟨-, isReference⟩ := serves
      · cases isText
      · exact isBoolean
      · cases isNumber
      · cases isReference
    obtain ⟨truth, rfl⟩ := has.truth isBoolean
    rw [isBoolean] at converted
    cases converted
    exact ⟨truth, rfl⟩

end HasValue

/-! ### Folding one operator -/

section Operators

variable {parts : ExprId → Constancy} {ty : Ty} {place : Span} {code : ErrorCode}

/-- An operand has the error of the expression. -/
theorem constantAs_error
    (failed : parts id = .error code) :
    tree.constantAs parts id ty = .error code := by
  rw [constantAs, failed]
  rfl

/-- A prefix operator is applied to its operand. -/
theorem constantOf_unary_value
    {op : UnaryOp}
    {operand : ExprId}
    {value : Value}
    (isOperand : tree.constantAs parts operand ty = .ok (some value)) :
    tree.constantOf parts ⟨.unary op operand, ty, place⟩ = (op.apply ty value).map some := by
  unfold constantOf
  dsimp only
  rw [isOperand]
  change (do return some (← op.apply ty value)) = _
  cases op.apply ty value <;> rfl

/-- A binary operator is applied to its operands. -/
theorem constantOf_binary_values
    {op : BinaryOp}
    {operandType : Ty}
    {left right : ExprId}
    {first second : Value}
    (isLeft : tree.constantAs parts left operandType = .ok (some first))
    (isRight : tree.constantAs parts right operandType = .ok (some second)) :
    tree.constantOf parts ⟨.binary op operandType left right, ty, place⟩ =
      (op.apply operandType first second).map some := by
  unfold constantOf
  dsimp only
  rw [isLeft, isRight]
  change (do return some (← op.apply operandType first second)) = _
  cases op.apply operandType first second <;> rfl

/-- A logical operator has the truth values of both operands. -/
theorem constantOf_logical_values
    {op : LogicalOp}
    {left right : ExprId}
    {first second : Bool}
    (isLeft : parts left = .ok (some (.bool first)))
    (isRight : parts right = .ok (some (.bool second))) :
    ∃ truth, tree.constantOf parts ⟨.logical op left right, ty, place⟩ =
      .ok (some (.bool truth)) := by
  unfold constantOf
  dsimp only
  rw [isLeft, isRight]
  cases op <;> exact ⟨_, rfl⟩

/-- A conditional expression has the value or the error of the branch that is taken. -/
theorem constantOf_conditional_truth
    {condition whenTrue whenFalse : ExprId}
    {truth : Bool}
    (isCondition : parts condition = .ok (some (.bool truth))) :
    tree.constantOf parts ⟨.conditional condition whenTrue whenFalse, ty, place⟩ =
      tree.constantAs parts (if truth then whenTrue else whenFalse) ty := by
  unfold constantOf
  dsimp only
  rw [isCondition]
  rfl

/-- The error of what is folded first is that of the whole expression. -/
theorem constantOf_error
    {node : Expr}
    {first : ExprId}
    (foldable : node.kind.isFoldable = true)
    (isFirst : node.kind.children.head? = some first)
    (failed : parts first = .error code) :
    tree.constantOf parts node = .error code := by
  obtain ⟨kind, ty, place⟩ := node
  unfold constantOf
  cases kind with
  | unary | binary =>
      cases isFirst
      dsimp only
      rw [constantAs_error failed]
      rfl
  | logical | conditional =>
      cases isFirst
      dsimp only
      rw [failed]
      rfl
  | literal => cases isFirst
  | _ => cases foldable

/-- The error of the right operand of a binary operator is that of the whole expression. -/
theorem constantOf_binary_error
    {op : BinaryOp}
    {operandType : Ty}
    {left right : ExprId}
    {first : Value}
    (isLeft : tree.constantAs parts left operandType = .ok (some first))
    (failed : parts right = .error code) :
    tree.constantOf parts ⟨.binary op operandType left right, ty, place⟩ = .error code := by
  unfold constantOf
  dsimp only
  rw [isLeft, constantAs_error failed]
  rfl

/-- The error of the right operand of a logical operator is that of the whole expression. -/
theorem constantOf_logical_error
    {op : LogicalOp}
    {left right : ExprId}
    {first : Option Value}
    (isLeft : parts left = .ok first)
    (failed : parts right = .error code) :
    tree.constantOf parts ⟨.logical op left right, ty, place⟩ = .error code := by
  unfold constantOf
  dsimp only
  rw [isLeft, failed]
  rfl

end Operators

/-- The constant of an expression in a tree is that of its node. -/
theorem constant?_of_expr?
    {node : Expr}
    (partsFirst : tree.PartsFirst)
    (found : tree.expr? id = some node) :
    tree.constant? id = tree.constantOf tree.constant? node := by
  rw [constant?_eq partsFirst (inside_of_expr? found), expr_of_expr? found]

/-- Such an expression is folded to a value of its type, or folding it has an error. -/
theorem IsConstant.settles
    (partsFirst : tree.PartsFirst)
    (constant : tree.IsConstant id) :
    (∃ value, tree.HasValue id value) ∨ ∃ code, tree.constant? id = .error code := by
  -- A plain value of the type of the node, or an error, is what operators deliver.
  have delivered {id : ExprId} {node : Expr} {outcome : Except ErrorCode Value}
      (found : tree.expr? id = some node)
      (folds : tree.constantOf tree.constant? node = outcome.map some)
      (plain : ∀ value, outcome = .ok value → value.isPlain node.ty = true) :
      (∃ value, tree.HasValue id value) ∨ ∃ code, tree.constant? id = .error code := by
    rw [← constant?_of_expr? partsFirst found] at folds
    cases outcome with
    | ok value => exact .inl ⟨value, .ofPlain folds (expr_of_expr? found ▸ plain value rfl)⟩
    | error code => exact .inr ⟨code, folds⟩
  have failing {id : ExprId} {node : Expr} {code : ErrorCode}
      (found : tree.expr? id = some node)
      (fails : tree.constantOf tree.constant? node = .error code) :
      (∃ value, tree.HasValue id value) ∨ ∃ code, tree.constant? id = .error code :=
    .inr ⟨code, (constant?_of_expr? partsFirst found).trans fails⟩
  induction constant with
  | @literal id content ty place found isOf =>
      refine .inl ⟨.ofLiteral content, constant?_of_expr? partsFirst found, ?_, ?_⟩
      · rw [expr_of_expr? found]
        exact isOf.form
      · rw [expr_of_expr? found]
        rintro rfl
        exact isOf.isTruth
  | @unary id operand op ty place found fits _ inductionHypothesis =>
      obtain ⟨value, has⟩ | ⟨code, failed⟩ := inductionHypothesis
      · have serves : (tree.expr operand).ty.Serves ty := by
          obtain ⟨isBoolean, rfl⟩ | isNumber := Compile.unaryType?_type fits
          · exact .inr (.inl ⟨isBoolean, rfl⟩)
          · exact (Ty.arithmeticResult?_serves isNumber).1
        obtain ⟨first, isOperand, -, form, -⟩ := has.constantAs serves
        exact delivered found (constantOf_unary_value isOperand) fun _ => UnaryOp.apply_plain form
      · exact failing found (constantOf_error rfl rfl failed)
  | @binary id left right op operandType ty place found fits _ _ ofLeft ofRight =>
      obtain ⟨servesLeft, servesRight, -⟩ := binaryTypes?_serves fits
      obtain ⟨-, isResult⟩ := binaryTypes?_types fits
      obtain ⟨leftValue, hasLeft⟩ | ⟨code, failed⟩ := ofLeft
      · obtain ⟨first, isLeft, -⟩ := hasLeft.constantAs servesLeft
        obtain ⟨rightValue, hasRight⟩ | ⟨code, failed⟩ := ofRight
        · obtain ⟨second, isRight, -⟩ := hasRight.constantAs servesRight
          refine delivered found (constantOf_binary_values isLeft isRight) fun value applied => ?_
          exact isResult ▸ BinaryOp.apply_ok applied
        · exact failing found (constantOf_binary_error isLeft failed)
      · exact failing found (constantOf_error rfl rfl failed)
  | @logical id left right op place found leftType rightType _ _ ofLeft ofRight =>
      obtain ⟨leftValue, hasLeft⟩ | ⟨code, failed⟩ := ofLeft
      · obtain ⟨first, rfl⟩ := hasLeft.truth leftType
        obtain ⟨rightValue, hasRight⟩ | ⟨code, failed⟩ := ofRight
        · obtain ⟨second, rfl⟩ := hasRight.truth rightType
          obtain ⟨truth, isResult⟩ :=
            constantOf_logical_values hasLeft.constant hasRight.constant
          rw [← constant?_of_expr? partsFirst found] at isResult
          exact .inl ⟨.bool truth, .ofPlain isResult (expr_of_expr? found ▸ rfl)⟩
        · exact failing found (constantOf_logical_error hasLeft.constant failed)
      · exact failing found (constantOf_error rfl rfl failed)
  | @conditional id condition whenTrue whenFalse ty place found isCondition fits _ _ _ ofCondition
      ofTrue ofFalse =>
      obtain ⟨value, has⟩ | ⟨code, failed⟩ := ofCondition
      · obtain ⟨truth, rfl⟩ := has.truth isCondition
        have folds :
            tree.constantOf tree.constant? ⟨.conditional condition whenTrue whenFalse, ty, place⟩ =
              tree.constantAs tree.constant? (if truth then whenTrue else whenFalse) ty :=
          constantOf_conditional_truth has.constant
        obtain ⟨servesTrue, servesFalse⟩ := commonType?_serves fits
        obtain ⟨branch, isBranch, ofBranch, serves⟩ :
            ∃ branch, branch = (if truth then whenTrue else whenFalse) ∧
              ((∃ value, tree.HasValue branch value) ∨
                ∃ code, tree.constant? branch = .error code) ∧
              (tree.expr branch).ty.Serves ty := by
          cases truth
          · exact ⟨whenFalse, rfl, ofFalse, servesFalse⟩
          · exact ⟨whenTrue, rfl, ofTrue, servesTrue⟩
        rw [← isBranch, ← constant?_of_expr? partsFirst found] at folds
        obtain ⟨chosen, hasChosen⟩ | ⟨code, failed⟩ := ofBranch
        · obtain ⟨result, isResult, -, form, isTruth⟩ := hasChosen.constantAs serves
          refine .inl ⟨result, folds.trans isResult, ?_, ?_⟩
          · rw [expr_of_expr? found]
            exact form
          · rw [expr_of_expr? found]
            exact isTruth
        · exact .inr ⟨code, folds.trans (constantAs_error failed)⟩
      · exact failing found (constantOf_error rfl rfl failed)

end Tree

/-! ## Raised errors -/

/-- The exception that reports an error is known to report it. -/
theorem RuntimeError.known?_ofCode
    (code : ErrorCode)
    (span : Span) :
    (RuntimeError.ofCode code span).known? = some code := by
  cases code <;> rfl

namespace Machine

variable {setting : Setting} {frame : Frame} {id part : ExprId} {node : Expr}
  {incoming : Option Completion} {code : ErrorCode}

/--
A frame raises an error whatever the memory and the frames below it are: all turns until then
only evaluate.
-/
def FailsWith
    (setting : Setting) (frame : Frame) (incoming : Option Completion) (code : ErrorCode) : Prop :=
  ∀ memory below outcome steps, ∃ span,
    ReflTransGen (Evaluates setting below)
      ⟨memory, frame :: below, incoming, outcome, steps⟩
      ⟨memory, below, some (.thrown (.ofCode code span)), outcome, steps⟩

section Turns

variable (isNode : frame.node = .expression id .value)
  (found : setting.tree.expr? id = some node)
  (foldable : node.kind.isFoldable = true)

include isNode found foldable

/-- A step that raises an error. -/
theorem FailsWith.ofStep
    (raises : ∀ memory,
      Step.Results memory (Step.expression setting frame id .value incoming)
        (.error (.fault (.error code))) memory) :
    FailsWith setting frame incoming code := by
  intro memory below outcome steps
  refine ⟨frame.node.span setting.tree, .single ?_⟩
  exact evaluates_complete isNode found foldable (raises memory) rfl below outcome steps

/-- A step that has a part evaluated first, which delivers a value. -/
theorem FailsWith.behind
    {value : Value}
    (later : Frame)
    (sameNode : later.node = frame.node)
    (yields : ∀ memory, Step.Yields memory (Step.expression setting frame id .value incoming)
      (Step.pushExpression later part .value))
    (delivers : Delivers setting (.enter (.expression part .value) later.act) none value)
    (rest : FailsWith setting later (some (.value value)) code) :
    FailsWith setting frame incoming code := by
  intro memory below outcome steps
  obtain ⟨span, raised⟩ := rest memory below outcome steps
  have entered := evaluates_push isNode found foldable sameNode (yields memory) below outcome steps
  have evaluated :=
    ReflTransGen.mono (fun _ _ => Evaluates.lift (sameNode.trans isNode)) _ _
      (delivers memory (later :: below) outcome steps)
  exact ⟨span, (ReflTransGen.head entered evaluated).trans raised⟩

omit isNode in
/-- A frame that waits for a part of its expression passes on the error of the part. -/
theorem expression_passes
    (operator : node.kind.children ≠ [])
    (waits : frame.state ≠ 0)
    (memory : Memory)
    (error : RuntimeError) :
    Step.Results memory (Step.expression setting frame id .value (some (.thrown error)))
      (.error (.propagate (.thrown error))) memory := by
  have stopped {α : Type} (next : Value → Step α) :
      Step.Results memory (Step.valueOf (some (.thrown error)) >>= next)
        (.error (.propagate (.thrown error))) memory :=
    .stop rfl
  have tested {α : Type} (next : Bool → Step α) :
      Step.Results memory (Step.conditionOf (some (.thrown error)) >>= next)
        (.error (.propagate (.thrown error))) memory :=
    .stop (stopped _)
  unfold Step.expression
  refine .bind (.part found) ?_
  obtain ⟨kind, ty, place⟩ := node
  cases kind with
  | unary | binary | logical | conditional =>
      dsimp only
      split
      · next isFirst => exact absurd isFirst waits
      all_goals first | exact stopped _ | exact tested _
  | literal => exact absurd rfl operator
  | _ => cases foldable

/-- A step that has a part evaluated first, which raises an error. -/
theorem FailsWith.ofPart
    (later : Frame)
    (sameNode : later.node = frame.node)
    (yields : ∀ memory, Step.Yields memory (Step.expression setting frame id .value incoming)
      (Step.pushExpression later part .value))
    (operator : node.kind.children ≠ [])
    (waits : later.state ≠ 0)
    (fails : FailsWith setting (.enter (.expression part .value) later.act) none code) :
    FailsWith setting frame incoming code := by
  intro memory below outcome steps
  have isLater := sameNode.trans isNode
  obtain ⟨span, raised⟩ := fails memory (later :: below) outcome steps
  have entered := evaluates_push isNode found foldable sameNode (yields memory) below outcome steps
  have evaluated := ReflTransGen.mono (fun _ _ => Evaluates.lift isLater) _ _ raised
  have passes := expression_passes found foldable operator waits memory (.ofCode code span)
  have passed := evaluates_complete isLater found foldable passes rfl below outcome steps
  exact ⟨span, (ReflTransGen.head entered evaluated).tail passed⟩

end Turns

/-- A frame that starts has the part evaluated that is folded first. -/
theorem yields_first
    {first : ExprId}
    {act : UInt32}
    (found : setting.tree.expr? id = some node)
    (foldable : node.kind.isFoldable = true)
    (isFirst : node.kind.children.head? = some first)
    (memory : Memory) :
    Step.Yields memory
      (Step.expression setting (.enter (.expression id .value) act) id .value none)
      (Step.pushExpression { Frame.enter (.expression id .value) act with state := 1 } first
        .value) := by
  refine (Step.Yields.part found).bind ?_
  obtain ⟨kind, ty, place⟩ := node
  cases kind with
  | unary | binary | logical | conditional =>
      cases isFirst
      exact .pure _
  | literal => cases isFirst
  | _ => cases foldable

/-- The error of the part that is evaluated first is raised. -/
theorem FailsWith.ofFirst
    {first : ExprId}
    {act : UInt32}
    (found : setting.tree.expr? id = some node)
    (foldable : node.kind.isFoldable = true)
    (isFirst : node.kind.children.head? = some first)
    (fails : FailsWith setting (.enter (.expression first .value) act) none code) :
    FailsWith setting (.enter (.expression id .value) act) none code := by
  have operator : node.kind.children ≠ [] := by
    intro none
    rw [none] at isFirst
    cases isFirst
  have one : (1 : UInt32) ≠ 0 := by decide
  exact .ofPart rfl found foldable { Frame.enter (.expression id .value) act with state := 1 } rfl
    (yields_first found foldable isFirst) operator one fails

/-- An error is raised behind the part that is evaluated first. -/
theorem FailsWith.behindFirst
    {first : ExprId}
    {act : UInt32}
    {value : Value}
    (found : setting.tree.expr? id = some node)
    (foldable : node.kind.isFoldable = true)
    (isFirst : node.kind.children.head? = some first)
    (delivers : Delivers setting (.enter (.expression first .value) act) none value)
    (rest : FailsWith setting { Frame.enter (.expression id .value) act with state := 1 }
      (some (.value value)) code) :
    FailsWith setting (.enter (.expression id .value) act) none code :=
  .behind rfl found foldable { Frame.enter (.expression id .value) act with state := 1 } rfl
    (yields_first found foldable isFirst) delivers rest

/-- A frame of such an expression delivers the value to which the expression is folded. -/
theorem delivers_of_isConstant
    {value : Value}
    (partsFirst : setting.tree.PartsFirst)
    (constant : setting.tree.IsConstant id)
    (folded : setting.tree.constant? id = .ok (some value))
    (act : UInt32) :
    Delivers setting (.enter (.expression id .value) act) none value := by
  refine delivers_constant partsFirst (fun inner within node found => ?_) constant.inside folded act
  have isConstant := constant.within within
  exact isConstant.operates_of found fun part isPart =>
    (isConstant.part isPart).operable partsFirst

/-- A frame of an expression raises the error that folding the expression has. -/
def FailsFolded (setting : Setting) (act : UInt32) (id : ExprId) : Prop :=
  ∀ code, setting.tree.constant? id = .error code →
    FailsWith setting (.enter (.expression id .value) act) none code

section Operators

variable {act : UInt32} {ty : Ty} {place : Span}
  (partsFirst : setting.tree.PartsFirst)

include partsFirst

/-- The error of a prefix operator is that of its operand, or its own. -/
theorem failsFolded_unary
    {op : UnaryOp}
    {operand : ExprId}
    (found : setting.tree.expr? id = some ⟨.unary op operand, ty, place⟩)
    (fits : Compile.unaryType? op (setting.tree.expr operand).ty = some ty)
    (ofOperand : setting.tree.IsConstant operand)
    (operandFails : FailsFolded setting act operand) :
    FailsFolded setting act id := by
  intro code failed
  rw [Tree.constant?_of_expr? partsFirst found] at failed
  obtain ⟨value, has⟩ | ⟨other, partFailed⟩ := ofOperand.settles partsFirst
  · obtain ⟨converted, -⟩ := Tree.convertConstant_operand fits
      (ofOperand.operable partsFirst value has.constant)
    rw [Tree.constantOf_unary_value (Tree.constantAs_value has.constant converted)] at failed
    have delivers := delivers_of_isConstant partsFirst ofOperand has.constant act
    refine .behindFirst found rfl rfl delivers ?_
    refine .ofStep rfl found rfl fun memory => ?_
    refine .bind (.part found) (.bind (.pure value) (.stop ?_))
    rw [map_error failed]
    rfl
  · cases (Tree.constantOf_error rfl rfl partFailed).symm.trans failed
    exact .ofFirst found rfl rfl (operandFails _ partFailed)

/-- The error of a binary operator is that of its left or right operand, or its own. -/
theorem failsFolded_binary
    {op : BinaryOp}
    {operandType : Ty}
    {left right : ExprId}
    (found : setting.tree.expr? id = some ⟨.binary op operandType left right, ty, place⟩)
    (fits : binaryTypes? op (setting.tree.expr left).ty (setting.tree.expr right).ty =
      some (operandType, ty))
    (ofLeft : setting.tree.IsConstant left)
    (ofRight : setting.tree.IsConstant right)
    (leftFails : FailsFolded setting act left)
    (rightFails : FailsFolded setting act right) :
    FailsFolded setting act id := by
  intro code failed
  rw [Tree.constant?_of_expr? partsFirst found] at failed
  obtain ⟨servesLeft, servesRight, -⟩ := binaryTypes?_serves fits
  obtain ⟨leftValue, hasLeft⟩ | ⟨other, partFailed⟩ := ofLeft.settles partsFirst
  · obtain ⟨first, isLeft, leftConverted, -⟩ := hasLeft.constantAs servesLeft
    have delivers := delivers_of_isConstant partsFirst ofLeft hasLeft.constant act
    refine .behindFirst found rfl rfl delivers ?_
    let waiting : Frame :=
      { Frame.enter (.expression id .value) act with values := [leftValue], state := 2 }
    have next (memory : Memory) :
        Step.Yields memory
          (Step.expression setting { waiting with values := [], state := 1 } id .value
            (some (.value leftValue)))
          (Step.pushExpression waiting right .value) :=
      (Step.Yields.part found).bind ((Step.Yields.pure leftValue).bind (.pure _))
    obtain ⟨rightValue, hasRight⟩ | ⟨other, partFailed⟩ := ofRight.settles partsFirst
    · obtain ⟨second, isRight, rightConverted, -⟩ := hasRight.constantAs servesRight
      rw [Tree.constantOf_binary_values isLeft isRight] at failed
      have delivers := delivers_of_isConstant partsFirst ofRight hasRight.constant act
      refine .behind rfl found rfl waiting rfl next delivers ?_
      refine .ofStep rfl found rfl fun memory => ?_
      have leftScalar := Tree.constant?_refs hasLeft.constant
      have rightScalar := Tree.constant?_refs hasRight.constant
      refine .bind (.part found) (.bind (.pure rightValue) ?_)
      refine .bind (Step.Yields.typeOf ofRight.inside) ?_
      refine .bind (Step.Yields.operand rightScalar rightConverted) ?_
      refine .bind (.pure leftValue) (.bind (Step.Yields.typeOf ofLeft.inside) ?_)
      refine .bind (Step.Yields.operand leftScalar leftConverted) (.stop ?_)
      rw [map_error failed]
      rfl
    · cases (Tree.constantOf_binary_error isLeft partFailed).symm.trans failed
      have two : (2 : UInt32) ≠ 0 := by decide
      exact .ofPart rfl found rfl waiting rfl next (List.cons_ne_nil _ _) two
        (rightFails _ partFailed)
  · cases (Tree.constantOf_error rfl rfl partFailed).symm.trans failed
    exact .ofFirst found rfl rfl (leftFails _ partFailed)

/--
The error of a logical operator is that of its left operand, or that of its right operand if the
left one does not decide.
-/
theorem failsFolded_logical
    {op : LogicalOp}
    {left right : ExprId}
    (found : setting.tree.expr? id = some ⟨.logical op left right, ty, place⟩)
    (leftType : (setting.tree.expr left).ty = .boolean)
    (rightType : (setting.tree.expr right).ty = .boolean)
    (ofLeft : setting.tree.IsConstant left)
    (ofRight : setting.tree.IsConstant right)
    (shown : ¬ setting.tree.HidesError id)
    (leftFails : FailsFolded setting act left)
    (rightFails : FailsFolded setting act right) :
    FailsFolded setting act id := by
  intro code failed
  rw [Tree.constant?_of_expr? partsFirst found] at failed
  obtain ⟨leftValue, hasLeft⟩ | ⟨other, partFailed⟩ := ofLeft.settles partsFirst
  · obtain ⟨truth, rfl⟩ := hasLeft.truth leftType
    have delivers := delivers_of_isConstant partsFirst ofLeft hasLeft.constant act
    refine .behindFirst found rfl rfl delivers ?_
    obtain ⟨rightValue, hasRight⟩ | ⟨other, partFailed⟩ := ofRight.settles partsFirst
    · obtain ⟨second, rfl⟩ := hasRight.truth rightType
      obtain ⟨result, isResult⟩ :=
        Tree.constantOf_logical_values hasLeft.constant hasRight.constant
      cases isResult.symm.trans failed
    · cases (Tree.constantOf_logical_error hasLeft.constant partFailed).symm.trans failed
      -- If the left operand decided, the error would be hidden.
      have undecided : (truth == (op == .or)) ≠ true := by
        intro decides
        have same := beq_iff_eq.mp decides
        subst same
        exact shown ⟨id, op, left, right, ty, place, code, .refl, found, hasLeft.constant,
          partFailed⟩
      let waiting : Frame := { Frame.enter (.expression id .value) act with state := 2 }
      have next (memory : Memory) :
          Step.Yields memory
            (Step.expression setting { waiting with state := 1 } id .value
              (some (.value (.bool truth))))
            (Step.pushExpression waiting right .value) := by
        refine (Step.Yields.part found).bind ((Step.Yields.conditionOf rfl).bind ?_)
        rw [if_neg undecided]
        exact .pure _
      have two : (2 : UInt32) ≠ 0 := by decide
      exact .ofPart rfl found rfl waiting rfl next (List.cons_ne_nil _ _) two
        (rightFails _ partFailed)
  · cases (Tree.constantOf_error rfl rfl partFailed).symm.trans failed
    exact .ofFirst found rfl rfl (leftFails _ partFailed)

/-- The error of a conditional expression is that of its condition or of the branch taken. -/
theorem failsFolded_conditional
    {condition whenTrue whenFalse : ExprId}
    (found : setting.tree.expr? id = some ⟨.conditional condition whenTrue whenFalse, ty, place⟩)
    (isCondition : (setting.tree.expr condition).ty = .boolean)
    (fits : setting.tree.commonType? (setting.tree.expr whenTrue).ty
      (setting.tree.expr whenFalse).ty = some ty)
    (ofCondition : setting.tree.IsConstant condition)
    (ofTrue : setting.tree.IsConstant whenTrue)
    (ofFalse : setting.tree.IsConstant whenFalse)
    (conditionFails : FailsFolded setting act condition)
    (trueFails : FailsFolded setting act whenTrue)
    (falseFails : FailsFolded setting act whenFalse) :
    FailsFolded setting act id := by
  intro code failed
  rw [Tree.constant?_of_expr? partsFirst found] at failed
  obtain ⟨value, has⟩ | ⟨other, partFailed⟩ := ofCondition.settles partsFirst
  · obtain ⟨truth, rfl⟩ := has.truth isCondition
    obtain ⟨servesTrue, servesFalse⟩ := Tree.commonType?_serves fits
    rw [Tree.constantOf_conditional_truth has.constant] at failed
    have delivers := delivers_of_isConstant partsFirst ofCondition has.constant act
    refine .behindFirst found rfl rfl delivers ?_
    let waiting : Frame :=
      { Frame.enter (.expression id .value) act with aux := if truth then 0 else 1, state := 2 }
    have next (memory : Memory) :
        Step.Yields memory
          (Step.expression setting { waiting with aux := 0, state := 1 } id .value
            (some (.value (.bool truth))))
          (Step.pushExpression waiting (if truth then whenTrue else whenFalse) .value) := by
      refine (Step.Yields.part found).bind ((Step.Yields.conditionOf rfl).bind ?_)
      cases truth <;> exact .pure _
    -- The branch that is taken has the error, as what it delivers can be converted.
    have taken {branch : ExprId} (ofBranch : setting.tree.IsConstant branch)
        (serves : (setting.tree.expr branch).ty.Serves ty)
        (failed : setting.tree.constantAs setting.tree.constant? branch ty = .error code) :
        setting.tree.constant? branch = .error code := by
      obtain ⟨chosen, hasChosen⟩ | ⟨other, partFailed⟩ := ofBranch.settles partsFirst
      · obtain ⟨result, isResult, -⟩ := hasChosen.constantAs serves
        cases isResult.symm.trans failed
      · cases (Tree.constantAs_error partFailed).symm.trans failed
        exact partFailed
    have two : (2 : UInt32) ≠ 0 := by decide
    refine .ofPart rfl found rfl waiting rfl next (List.cons_ne_nil _ _) two ?_
    cases truth with
    | true => exact trueFails _ (taken ofTrue servesTrue failed)
    | false => exact falseFails _ (taken ofFalse servesFalse failed)
  · cases (Tree.constantOf_error rfl rfl partFailed).symm.trans failed
    exact .ofFirst found rfl rfl (conditionFails _ partFailed)

/-- A frame of such an expression raises the error that folding it has, if none is hidden. -/
theorem failsFolded_of_isConstant
    (constant : setting.tree.IsConstant id)
    (shown : ¬ setting.tree.HidesError id)
    (act : UInt32) :
    FailsFolded setting act id := by
  -- No part hides an error that the whole does not hide.
  have showing {id part : ExprId} {node : Expr} (shown : ¬ setting.tree.HidesError id)
      (found : setting.tree.expr? id = some node) (isChild : part ∈ node.kind.children) :
      ¬ setting.tree.HidesError part :=
    fun hides => shown (hides.behind ⟨node, found, isChild⟩)
  induction constant with
  | literal found _ =>
      intro code failed
      rw [Tree.constant?_of_expr? partsFirst found] at failed
      cases failed
  | unary found fits ofOperand operandFails =>
      exact failsFolded_unary partsFirst found fits ofOperand
        (operandFails (showing shown found (List.mem_singleton_self _)))
  | binary found fits ofLeft ofRight leftFails rightFails =>
      exact failsFolded_binary partsFirst found fits ofLeft ofRight
        (leftFails (showing shown found List.mem_cons_self))
        (rightFails (showing shown found (by simp [ExprKind.children])))
  | logical found leftType rightType ofLeft ofRight leftFails rightFails =>
      exact failsFolded_logical partsFirst found leftType rightType ofLeft ofRight shown
        (leftFails (showing shown found List.mem_cons_self))
        (rightFails (showing shown found (by simp [ExprKind.children])))
  | conditional found isCondition fits ofCondition ofTrue ofFalse conditionFails trueFails
      falseFails =>
      exact failsFolded_conditional partsFirst found isCondition fits ofCondition ofTrue ofFalse
        (conditionFails (showing shown found List.mem_cons_self))
        (trueFails (showing shown found (by simp [ExprKind.children])))
        (falseFails (showing shown found (by simp [ExprKind.children])))

end Operators

/-- What a frame delivers or raises is one thing only. -/
theorem evaluates_unique
    {memory : Memory}
    {start : Machine}
    {one other : Completion}
    {outcome : Outcome}
    {steps : UInt64}
    (first : ReflTransGen (Evaluates setting []) start ⟨memory, [], some one, outcome, steps⟩)
    (second : ReflTransGen (Evaluates setting []) start ⟨memory, [], some other, outcome, steps⟩) :
    one = other := by
  have unique : Relator.RightUnique (Evaluates setting []) := by
    intro machine next also isNext isAlso
    cases isNext.moved.symm.trans isAlso.moved
    rfl
  have last {completion : Completion} {next : Machine} :
      ¬ Evaluates setting [] ⟨memory, [], some completion, outcome, steps⟩ next := by
    intro evaluates
    cases evaluates.moved
  obtain rest | rest := ReflTransGen.total_of_right_unique unique first second
  · obtain same | ⟨_, taken, -⟩ := ReflTransGen.cases_head rest
    · cases same
      rfl
    · exact absurd taken last
  · obtain same | ⟨_, taken, -⟩ := ReflTransGen.cases_head rest
    · cases same
      rfl
    · exact absurd taken last

/-- A frame raises one error only. -/
theorem FailsWith.unique
    {other : ErrorCode}
    (fails : FailsWith setting frame incoming code)
    (also : FailsWith setting frame incoming other) :
    code = other := by
  obtain ⟨_, first⟩ := fails default [] .running 0
  obtain ⟨_, second⟩ := also default [] .running 0
  have same := Completion.thrown.inj (evaluates_unique first second)
  have known := congrArg RuntimeError.known? same
  rw [RuntimeError.known?_ofCode, RuntimeError.known?_ofCode] at known
  exact Option.some.inj known

/-- A frame that delivers a value raises no error. -/
theorem Delivers.not_failsWith
    {value : Value}
    (delivers : Delivers setting frame incoming value) :
    ¬ FailsWith setting frame incoming code := by
  intro fails
  obtain ⟨_, raised⟩ := fails default [] .running 0
  cases evaluates_unique (delivers default [] .running 0) raised

/--
An error that a frame of an expression of literals and operators raises is never overlooked:
folding the expression has an error.  Unless an operator hides the error of its right operand,
folding has an error exactly if the frame raises it.
-/
theorem folded_failsWith
    (partsFirst : setting.tree.PartsFirst)
    (constant : setting.tree.IsConstant id)
    (act : UInt32) :
    (∀ code, FailsWith setting (.enter (.expression id .value) act) none code →
        ∃ other, setting.tree.constant? id = .error other) ∧
      (¬ setting.tree.HidesError id → ∀ code,
        setting.tree.constant? id = .error code ↔
          FailsWith setting (.enter (.expression id .value) act) none code) := by
  have noValue (code : ErrorCode)
      (fails : FailsWith setting (.enter (.expression id .value) act) none code) :
      ∃ other, setting.tree.constant? id = .error other := by
    refine (constant.settles partsFirst).resolve_left ?_
    rintro ⟨value, has⟩
    exact (delivers_of_isConstant partsFirst constant has.constant act).not_failsWith fails
  refine ⟨noValue, fun shown code => ⟨fun failed => ?_, fun fails => ?_⟩⟩
  · exact failsFolded_of_isConstant partsFirst constant shown act code failed
  · obtain ⟨other, failed⟩ := noValue code fails
    have alsoFails := failsFolded_of_isConstant partsFirst constant shown act other failed
    cases alsoFails.unique fails
    exact failed

/-- The operand behind `false and` divides by zero, which folding reports. -/
example :
    Tree.constant?
      { exprs :=
          #[⟨.literal (.bool false), .boolean, .none⟩, ⟨.literal (.int 1), .int, .none⟩,
            ⟨.literal (.int 0), .int, .none⟩, ⟨.binary .div .int ⟨1⟩ ⟨2⟩, .int, .none⟩,
            ⟨.binary .eq .int ⟨3⟩ ⟨1⟩, .boolean, .none⟩,
            ⟨.logical .and ⟨0⟩ ⟨4⟩, .boolean, .none⟩] }
      ⟨5⟩ = .error .zeroDivision := by
  decide

end Machine

end BotScript
