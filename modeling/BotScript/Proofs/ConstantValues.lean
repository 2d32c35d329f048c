import BotScript.Proofs.OperatorResult
import BotScript.Proofs.SinglePrecision
import BotScript.Proofs.TreeGrowth

namespace BotScript

/-!
# Values of constants

The value of a constant depends on its parts only, so it stays when the tree grows.  A
constant of a numeric type is a number that the type holds, and that the type of a prefix
operator holds as well: to convert the operand of a prefix operator changes nothing.
-/

/-! ## What types keep -/

/-- Types that are neither numeric nor boolean. -/
def Ty.IsOther (ty : Ty) : Prop :=
  ty.isNumeric = false ∧ (ty == .boolean) = false

/--
A value that a constant of a type can have.  No constant is a byte or a short integer, and
the code points of characters are integers as they are.
-/
inductive Ty.Keeps : Ty → Value → Prop where
  | nan (ty : Ty) : Keeps ty .nan
  | bool (content : Bool) : Keeps .boolean (.bool content)
  | char {content : Int64} :
      Ty.char.wrap content = content → Ty.int.wrap content = content →
      Keeps .char (.int content)
  | int {content : Int64} : Ty.int.wrap content = content → Keeps .int (.int content)
  | long (content : Int64) : Keeps .long (.int content)
  | float {content : Double} : content.toSingle = content → Keeps .float (.float content)
  | double (content : Double) : Keeps .double (.float content)
  | other {ty : Ty} (value : Value) : ty.IsOther → Keeps ty value

namespace Ty

/-- A wrapped integer is one that the type keeps. -/
theorem keeps_wrap (content : Int64) : Ty.int.Keeps (.int (Ty.int.wrap content)) :=
  .int (by simp [wrap])

/-- A rounded number is one that the type keeps. -/
theorem keeps_toSingle (content : Double) : Ty.float.Keeps (.float content.toSingle) :=
  .float content.toSingle_toSingle

/-- The code point of a character is kept. -/
theorem keeps_character (character : Char) :
    Ty.char.Keeps (.int (Int64.ofNat character.toNat)) := by
  have small : character.toNat < 0x110000 := by
    obtain low | ⟨-, high⟩ := character.valid
    · exact Nat.lt_trans low (by decide)
    · exact high
  refine .char ?_ (Int64.toInt_inj.mp ?_)
  · refine congrArg Int64.ofNat (?_ : (UInt64.ofNat character.toNat).toUInt32.toNat = _)
    rw [UInt64.toNat_toUInt32, UInt64.toNat_ofNat_of_lt' (Nat.lt_trans small (by decide))]
    omega
  · unfold wrap
    rw [Int32.toInt_toInt64, Int64.toInt_toInt32, Int64.toInt_ofNat_of_lt (by omega)]
    exact Int.bmod_eq_of_le (by omega) (by omega)

end Ty

/-! ## Results of operators -/

/-- The types in which numbers are computed. -/
def Ty.Computes (ty : Ty) : Prop :=
  ty = .int ∨ ty = .long ∨ ty = .float ∨ ty = .double

/-- The type of a result of numbers is one in which numbers are computed. -/
theorem Ty.arithmeticResult?_computes
    {left right ty : Ty}
    (fits : left.arithmeticResult? right = some ty) :
    ty.Computes := by
  unfold arithmeticResult? at fits
  split at fits
  · split at fits <;> cases fits
    · exact .inr (.inl rfl)
    · exact .inr (.inr (.inl rfl))
    · exact .inr (.inr (.inr rfl))
    · exact .inl rfl
  · cases fits

namespace BinaryOp

variable {op : BinaryOp} {ty : Ty} {result : Value}

/-- The mark for no number is compared only. -/
theorem isComparison_of_onNan
    {left right : Value}
    (applied : op.onNan left right = .ok result) :
    op.isComparison = true := by
  cases op <;> first | rfl | cases applied

/-- An operator on integers that is no comparison wraps its result. -/
theorem onIntegers_wraps
    {left right : Int64}
    (computes : op.isComparison = false)
    (applied : op.onIntegers ty left right = .ok result) :
    ∃ content, result = .int (ty.wrap content) := by
  unfold onIntegers at applied
  cases op
  case eq | ne | lt | le | gt | ge => cases computes
  case div | mod =>
      dsimp only at applied
      split at applied
      · cases applied
      · cases applied
        exact ⟨_, rfl⟩
  case pow =>
      dsimp only at applied
      split at applied <;> cases applied <;> exact ⟨_, rfl⟩
  all_goals
    cases applied
    exact ⟨_, rfl⟩

/-- An operator on numbers of single precision that is no comparison rounds its result. -/
theorem onFloats_rounds
    {left right : Double}
    (computes : op.isComparison = false)
    (applied : op.onFloats .float left right = .ok result) :
    ∃ content : Double, result = .float content.toSingle := by
  unfold onFloats at applied
  simp only [beq_self_eq_true, if_true] at applied
  cases op
  case eq | ne | lt | le | gt | ge => cases computes
  case div | mod =>
      dsimp only at applied
      split at applied
      · cases applied
      · cases applied
        exact ⟨_, rfl⟩
  case add | sub | mul | pow =>
      cases applied
      exact ⟨_, rfl⟩
  all_goals cases applied

/-- What an operator delivers is kept by the type of its results. -/
theorem apply_keeps
    {left right : Value}
    (operand : ty.Computes ∨ ty.isNumeric = false)
    (applied : op.apply ty left right = .ok result) :
    (op.resultType ty).Keeps result := by
  have plain := apply_ok applied
  unfold resultType at plain ⊢
  split at plain
  · next compares =>
    rw [if_pos compares]
    cases result <;> first | exact .bool _ | cases plain
  · next computes =>
    rw [if_neg computes]
    have wraps := eq_false_of_ne_true computes
    obtain (rfl | rfl | rfl | rfl) | notNumeric := operand
    · unfold apply at applied
      split at applied
      · exact absurd (isComparison_of_onNan applied) computes
      · dsimp only at applied
        split at applied
        · obtain ⟨content, rfl⟩ := onIntegers_wraps wraps applied
          exact Ty.keeps_wrap content
        · cases applied
    · cases result <;> first | exact .long _ | cases plain
    · unfold apply at applied
      split at applied
      · exact absurd (isComparison_of_onNan applied) computes
      · dsimp only at applied
        split at applied
        · obtain ⟨content, rfl⟩ := onFloats_rounds wraps applied
          exact Ty.keeps_toSingle content
        · cases applied
    · cases result <;> first | exact .double _ | cases plain
    · cases result with
      | bool content =>
          obtain rfl := beq_iff_eq.mp plain
          exact .bool content
      | str content =>
          obtain rfl := beq_iff_eq.mp plain
          exact .other _ ⟨rfl, rfl⟩
      | int content => cases ty <;> cases plain <;> cases notNumeric
      | float content => cases ty <;> cases plain <;> cases notNumeric
      | _ => cases plain

end BinaryOp

/-- Numbers are compared for equality in the types in which they are computed. -/
theorem equalityOperand?_type
    {left right operand : Ty}
    (fits : equalityOperand? left right = some operand) :
    operand.Computes ∨ operand.isNumeric = false := by
  have reference {ty : Ty} (isReference : ty.isReference = true) : ty.isNumeric = false := by
    cases ty <;> first | rfl | cases isReference
  unfold equalityOperand? at fits
  split at fits
  · next isResult =>
    cases fits
    exact .inl (Ty.arithmeticResult?_computes isResult)
  · split at fits
    · cases fits
      exact .inr rfl
    · cases fits
      exact .inr rfl
    · split at fits
      · next isReference =>
        cases fits
        exact .inr (reference isReference)
      · cases fits
    · split at fits
      · next isReference =>
        cases fits
        exact .inr (reference isReference)
      · cases fits
    · cases fits
      exact .inr rfl
    · cases fits
      exact .inr rfl
    · cases fits

/-- The types of a binary operator: numbers are computed in few types. -/
theorem binaryTypes?_types
    {op : BinaryOp}
    {left right operand result : Ty}
    (fits : binaryTypes? op left right = some (operand, result)) :
    (operand.Computes ∨ operand.isNumeric = false) ∧ result = op.resultType operand := by
  have computed {other : Ty → Ty} {source : Ty}
      (fits : (left.arithmeticResult? source).map (fun ty => (ty, other ty)) =
        some (operand, result)) :
      operand.Computes ∧ result = other operand := by
    obtain ⟨ty, isResult, same⟩ := Option.map_eq_some_iff.mp fits
    cases same
    exact ⟨Ty.arithmeticResult?_computes isResult, rfl⟩
  unfold binaryTypes? at fits
  split at fits
  · cases fits
  · cases op <;> dsimp only at fits
    case add =>
      split at fits
      · cases fits
        exact ⟨.inr rfl, rfl⟩
      · exact (computed fits).imp_left .inl
    case sub | mul | div | mod | pow => exact (computed fits).imp_left .inl
    case shl | shr | ushr =>
      split at fits
      · exact (computed fits).imp_left .inl
      · cases fits
    case bitAnd | bitOr | bitXor =>
      split at fits
      · cases fits
        exact ⟨.inr rfl, rfl⟩
      · split at fits
        · exact (computed fits).imp_left .inl
        · cases fits
    case eq | ne =>
      obtain ⟨ty, isOperand, same⟩ := Option.map_eq_some_iff.mp fits
      cases same
      exact ⟨equalityOperand?_type isOperand, rfl⟩
    case lt | le | gt | ge =>
      split at fits
      · cases fits
        exact ⟨.inr rfl, rfl⟩
      · exact (computed fits).imp_left .inl

/-- What a prefix operator delivers is kept by its type. -/
theorem UnaryOp.apply_keeps
    {op : UnaryOp}
    {ty : Ty}
    {value result : Value}
    (isType : ty.Computes ∨ ty = .boolean)
    (keeps : ty.Keeps value)
    (applied : op.apply ty value = .ok result) :
    ty.Keeps result := by
  cases keeps with
  | nan => cases op <;> cases applied
  | bool content => cases op <;> cases applied <;> exact .bool _
  | char => obtain (isType | isType | isType | isType) | isType := isType <;> cases isType
  | int narrow =>
      cases op <;> cases applied
      · exact Ty.keeps_wrap _
      · exact .int narrow
      · exact Ty.keeps_wrap _
  | long content => cases op <;> cases applied <;> exact .long _
  | float single =>
      cases op <;> cases applied
      · exact .float (by rw [Double.toSingle_neg, single])
      · exact .float single
  | double content => cases op <;> cases applied <;> exact .double _
  | other value isOther =>
      obtain ⟨notNumeric, notBoolean⟩ := isOther
      obtain (rfl | rfl | rfl | rfl) | rfl := isType
      · cases notNumeric
      · cases notNumeric
      · cases notNumeric
      · cases notNumeric
      · cases notBoolean

namespace Compile

/-- The type of a prefix operator. -/
theorem unaryType?_type
    {op : UnaryOp}
    {source target : Ty}
    (fits : unaryType? op source = some target) :
    source = .boolean ∧ target = .boolean ∨ source.arithmeticResult? source = some target := by
  cases op with
  | neg | plus => exact .inr fits
  | not =>
      obtain ⟨isBoolean, same⟩ := Option.ite_none_right_eq_some.mp fits
      cases same
      exact .inl ⟨isBoolean, rfl⟩
  | bitNot => exact .inr (Option.ite_none_right_eq_some.mp fits).2

end Compile

/-! ## Conversions -/

/-- A type that is the same, or wider, or neither numeric nor boolean. -/
def Ty.Widens (source target : Ty) : Prop :=
  source = target ∨ target.IsOther ∨
    ∃ rank wider, source.numericRank? = some rank ∧ target.numericRank? = some wider ∧
      rank ≤ wider

namespace Tree

/-- To convert an operand for a prefix operator changes nothing. -/
theorem convertConstant_operand
    {op : UnaryOp}
    {source target : Ty}
    {value : Value}
    (fits : Compile.unaryType? op source = some target)
    (keeps : source.Keeps value) :
    convertConstant value source target = .ok value ∧ target.Keeps value := by
  obtain ⟨rfl, rfl⟩ | isResult := Compile.unaryType?_type fits
  · cases keeps with
    | nan => exact ⟨rfl, .nan _⟩
    | bool content => exact ⟨rfl, .bool content⟩
    | other value isOther => cases isOther.2
  · cases keeps with
    | nan =>
        obtain rfl | rfl | rfl | rfl := Ty.arithmeticResult?_computes isResult <;>
          exact ⟨rfl, .nan _⟩
    | bool content => cases isResult
    | char fits wide =>
        cases isResult
        exact ⟨congrArg (Except.ok ∘ Value.int) wide, .int wide⟩
    | int narrow =>
        cases isResult
        exact ⟨congrArg (Except.ok ∘ Value.int) narrow, .int narrow⟩
    | long content =>
        cases isResult
        exact ⟨rfl, .long content⟩
    | float single =>
        cases isResult
        exact ⟨congrArg (Except.ok ∘ Value.float) single, .float single⟩
    | double content =>
        cases isResult
        exact ⟨rfl, .double content⟩
    | other value isOther =>
        obtain ⟨notNumeric, -⟩ := isOther
        cases source <;> cases isResult <;> cases notNumeric

/-- The type of a conditional expression is no narrower than that of a branch. -/
theorem commonType?_widens
    {tree : Tree}
    {left right source target : Ty}
    (fits : tree.commonType? left right = some target)
    (isBranch : source = left ∨ source = right) :
    source.Widens target := by
  unfold commonType? at fits
  split at fits
  · next same =>
    split at fits <;> cases fits
    exact .inl (isBranch.elim id fun isRight => isRight.trans same.symm)
  · split at fits
    · next leftRank rightRank isLeft isRight =>
      refine .inr (.inr ?_)
      split at fits <;> cases fits <;> obtain rfl | rfl := isBranch
      · exact ⟨_, _, isLeft, isLeft, Nat.le_refl _⟩
      · exact ⟨_, _, isRight, isLeft, ‹_›⟩
      · exact ⟨_, _, isLeft, isRight, by omega⟩
      · exact ⟨_, _, isRight, isRight, Nat.le_refl _⟩
    · refine .inr (.inl ?_)
      split at fits
      · cases fits
        exact ⟨rfl, rfl⟩
      · cases fits
        exact ⟨rfl, rfl⟩
      · cases fits
        exact ⟨rfl, rfl⟩
      · cases fits
        exact ⟨rfl, rfl⟩
      · split at fits
        · split at fits
          · cases fits
            exact ⟨rfl, rfl⟩
          · split at fits
            · cases fits
              exact ⟨rfl, rfl⟩
            · cases fits
        · cases fits
      · split at fits <;> cases fits
        exact ⟨rfl, rfl⟩
      · split at fits <;> cases fits
        exact ⟨rfl, rfl⟩
      · cases fits

/-- What is converted to a type in which numbers are computed is kept by it. -/
theorem convertConstant_computes
    {source target : Ty}
    {value result : Value}
    (computes : target.Computes)
    (converted : convertConstant value source target = .ok result) :
    target.Keeps result := by
  obtain rfl | rfl | rfl | rfl := computes
  · cases value <;> cases converted
    · exact Ty.keeps_wrap _
    · exact Ty.keeps_wrap _
    · exact .nan _
  · cases value <;> cases converted
    · exact .long _
    · exact .long _
    · exact .nan _
  · cases value <;> cases converted
    · exact .float (Double.toSingle_ofInt64Single _)
    · exact Ty.keeps_toSingle _
    · exact .nan _
  · cases value <;> cases converted
    · exact .double _
    · exact .double _
    · exact .nan _

/-- A constant that is converted for a conditional expression is kept by its type. -/
theorem convertConstant_keeps
    {source target : Ty}
    {value result : Value}
    (widens : source.Widens target)
    (keeps : source.Keeps value)
    (converted : convertConstant value source target = .ok result) :
    target.Keeps result := by
  obtain same | isOther | ⟨rank, wider, isRank, isWider, widens⟩ := widens
  · subst same
    cases keeps with
    | nan => cases source <;> first | exact .other _ ⟨rfl, rfl⟩ | (cases converted; exact .nan _)
    | bool content =>
        cases converted
        exact .bool content
    | char narrow wide =>
        cases converted
        rw [narrow]
        exact .char narrow wide
    | int | long | float | double =>
        exact convertConstant_computes (by simp [Ty.Computes]) converted
    | other value isOther => exact .other _ isOther
  · exact .other _ isOther
  · have computes (wide : 4 ≤ wider) : target.Computes := by
      cases target <;> cases isWider <;> first | omega | simp [Ty.Computes]
    cases keeps with
    | nan => cases target <;> cases isWider <;> cases converted <;> exact .nan _
    | bool content => cases isRank
    | char narrow widest =>
        cases isRank
        obtain isCharacter | wide := Nat.eq_or_lt_of_le widens
        · cases target <;> cases isWider <;> cases isCharacter
          cases converted
          rw [narrow]
          exact .char narrow widest
        · exact convertConstant_computes (computes wide) converted
    | int | long | float | double =>
        cases isRank
        exact convertConstant_computes (computes (by omega)) converted
    | other value isOther =>
        obtain ⟨notNumeric, -⟩ := isOther
        cases source <;> cases isRank <;> cases notNumeric

/-! ## Parts of constants -/

section Parts

variable {tree : Tree} {parts : ExprId → Constancy} {ty : Ty} {place : Span}
  {result : Value}

/-- A converted operand has a value, which is converted. -/
theorem constantAs_ok
    {part : ExprId}
    (constant : tree.constantAs parts part ty = .ok (some result)) :
    ∃ value, parts part = .ok (some value) ∧
      convertConstant value (tree.expr part).ty ty = .ok result := by
  obtain ⟨found, isFound, constant⟩ := bind_ok constant
  cases found with
  | none => cases constant
  | some value =>
      obtain ⟨converted, isConverted, same⟩ := bind_ok constant
      cases same
      exact ⟨value, isFound, isConverted⟩

/-- The constant of a prefix operator is one of its operand. -/
theorem constantOf_unary
    {op : UnaryOp}
    {operand : ExprId}
    (constant : tree.constantOf parts ⟨.unary op operand, ty, place⟩ = .ok (some result)) :
    ∃ value, tree.constantAs parts operand ty = .ok (some value) ∧ op.apply ty value = .ok result := by
  obtain ⟨found, isFound, constant⟩ := bind_ok constant
  cases found with
  | none => cases constant
  | some value =>
      obtain ⟨applied, isApplied, same⟩ := bind_ok constant
      cases same
      exact ⟨value, isFound, isApplied⟩

/-- The constant of a binary operator is one of its operands. -/
theorem constantOf_binary
    {op : BinaryOp}
    {operandType : Ty}
    {left right : ExprId}
    (constant :
      tree.constantOf parts ⟨.binary op operandType left right, ty, place⟩ = .ok (some result)) :
    ∃ first second, tree.constantAs parts left operandType = .ok (some first) ∧
      tree.constantAs parts right operandType = .ok (some second) ∧
        op.apply operandType first second = .ok result := by
  obtain ⟨foundLeft, isLeft, constant⟩ := bind_ok constant
  obtain ⟨foundRight, isRight, constant⟩ := bind_ok constant
  cases foundLeft with
  | none => cases constant
  | some first =>
      cases foundRight with
      | none => cases constant
      | some second =>
          obtain ⟨applied, isApplied, same⟩ := bind_ok constant
          cases same
          exact ⟨first, second, isLeft, isRight, isApplied⟩

/-- The constant of a logical operator is one of both of its operands. -/
theorem constantOf_logical
    {op : LogicalOp}
    {left right : ExprId}
    (constant : tree.constantOf parts ⟨.logical op left right, ty, place⟩ = .ok (some result)) :
    ∃ first second truth other, parts left = .ok (some first) ∧ parts right = .ok (some second) ∧
      first.truth = .ok truth ∧ second.truth = .ok other ∧
        result = .bool (if op = .and then truth && other else truth || other) := by
  obtain ⟨foundLeft, isLeft, constant⟩ := bind_ok constant
  obtain ⟨foundRight, isRight, constant⟩ := bind_ok constant
  cases foundLeft with
  | none => cases constant
  | some first =>
      cases foundRight with
      | none => cases constant
      | some second =>
          obtain ⟨truth, isTruth, constant⟩ := bind_ok constant
          obtain ⟨other, isOther, same⟩ := bind_ok constant
          refine ⟨first, second, truth, other, isLeft, isRight, isTruth, isOther, ?_⟩
          cases op <;> cases same <;> rfl

/-- The constant of a conditional expression is one of its condition and of a branch. -/
theorem constantOf_conditional
    {condition whenTrue whenFalse : ExprId}
    (constant :
      tree.constantOf parts ⟨.conditional condition whenTrue whenFalse, ty, place⟩ =
        .ok (some result)) :
    ∃ value truth, parts condition = .ok (some value) ∧ value.truth = .ok truth ∧
      tree.constantAs parts (if truth then whenTrue else whenFalse) ty = .ok (some result) := by
  obtain ⟨found, isFound, constant⟩ := bind_ok constant
  cases found with
  | none => cases constant
  | some value =>
      obtain ⟨truth, isTruth, constant⟩ := bind_ok constant
      exact ⟨value, truth, isFound, isTruth, constant⟩

end Parts

/-! ## Constants of trees that grow -/

section Growth

variable {tree before after : Tree}

/-- The parts of an expression come before it. -/
def PartsFirst (tree : Tree) : Prop :=
  ∀ (index : Nat) node, tree.exprs[index]? = some node →
    ∀ child ∈ node.kind.children, child.index < index

/-- The parts of an expression were in front of it if they still are. -/
theorem Grows.partsFirst
    (grows : before.Grows after)
    (partsFirst : after.PartsFirst) :
    before.PartsFirst :=
  fun index node found => partsFirst index node (grows.exprs index node found)

/-- The value of a constant depends on the types and the values of its parts. -/
theorem constantOf_congr
    {parts otherParts : ExprId → Constancy}
    {node : Expr}
    (same : ∀ part ∈ node.kind.children,
      otherParts part = parts part ∧ after.expr part = before.expr part) :
    after.constantOf otherParts node = before.constantOf parts node := by
  have converted {part : ExprId} (isPart : part ∈ node.kind.children) (ty : Ty) :
      after.constantAs otherParts part ty = before.constantAs parts part ty := by
    obtain ⟨sameValue, sameNode⟩ := same part isPart
    unfold constantAs
    rw [sameValue, sameNode]
  obtain ⟨kind, ty, place⟩ := node
  cases kind with
  | unary op operand =>
      simp only [constantOf, converted (List.mem_singleton_self operand)]
  | binary op operandType left right =>
      have isLeft : left ∈ [left, right] := List.mem_cons_self
      have isRight : right ∈ [left, right] := List.mem_cons_of_mem _ (List.mem_singleton_self _)
      simp only [constantOf, converted isLeft, converted isRight]
  | logical op left right =>
      simp only [constantOf, (same left (by simp [ExprKind.children])).1,
        (same right (by simp [ExprKind.children])).1]
  | conditional condition whenTrue whenFalse =>
      have chosen (truth : Bool) :
          after.constantAs otherParts (if truth then whenTrue else whenFalse) ty =
            before.constantAs parts (if truth then whenTrue else whenFalse) ty := by
        cases truth <;> exact converted (by simp [ExprKind.children]) ty
      simp only [constantOf, (same condition (by simp [ExprKind.children])).1, chosen]
  | _ => rfl

/-- A bound that no nesting reaches does not matter, and a tree that grows keeps its constants. -/
theorem constantWithin_grows
    (grows : before.Grows after)
    (partsFirst : before.PartsFirst)
    {bound otherBound : Nat}
    {id : ExprId}
    (inside : id.index < before.exprs.size)
    (deep : id.index < bound)
    (otherDeep : id.index < otherBound) :
    after.constantWithin otherBound id = before.constantWithin bound id := by
  induction bound generalizing id otherBound with
  | zero => exact absurd deep (Nat.not_lt_zero _)
  | succ bound inductionHypothesis =>
      cases otherBound with
      | zero => exact absurd otherDeep (Nat.not_lt_zero _)
      | succ otherBound =>
          rw [constantWithin, constantWithin, grows.expr inside]
          refine constantOf_congr fun part isPart => ?_
          have earlier : part.index < id.index := by
            refine partsFirst _ _ (Array.getElem?_eq_getElem inside) part ?_
            rwa [Tree.expr, Tree.expr?, Array.getElem?_eq_getElem inside] at isPart
          have there := Nat.lt_trans earlier inside
          exact ⟨inductionHypothesis there (by omega) (by omega), grows.expr there⟩

/-- A tree that grows keeps the values of its constants. -/
theorem Grows.constant?
    (grows : before.Grows after)
    (partsFirst : before.PartsFirst)
    {id : ExprId}
    (inside : id.index < before.exprs.size) :
    after.constant? id = before.constant? id :=
  constantWithin_grows grows partsFirst inside inside
    (Nat.lt_of_lt_of_le inside grows.exprs_size)

/-- The value of a constant is that of its parts. -/
theorem constant?_eq
    (partsFirst : tree.PartsFirst)
    {id : ExprId}
    (inside : id.index < tree.exprs.size) :
    tree.constant? id = tree.constantOf tree.constant? (tree.expr id) := by
  have deeper :
      tree.constantWithin tree.exprs.size id = tree.constantWithin (tree.exprs.size + 1) id :=
    constantWithin_grows (.refl tree) partsFirst inside (Nat.lt_succ_of_lt inside) inside
  exact deeper

end Growth

/-! ## Operands of prefix operators -/

/-- If an expression is a constant, its type keeps its value. -/
def Operable (tree : Tree) (id : ExprId) : Prop :=
  ∀ value, tree.constant? id = .ok (some value) → (tree.expr id).ty.Keeps value

/-- An operator with the types of its parts; only literals can have any value. -/
def Operates (tree : Tree) (ty : Ty) : ExprKind → Prop
  | .unary op operand =>
      Compile.unaryType? op (tree.expr operand).ty = some ty ∧ tree.Operable operand
  | .binary op operandType left right =>
      binaryTypes? op (tree.expr left).ty (tree.expr right).ty = some (operandType, ty)
  | .logical _ _ _ => ty = .boolean
  | .conditional _ whenTrue whenFalse =>
      ∀ branch ∈ [whenTrue, whenFalse], (tree.expr branch).ty.Widens ty ∧ tree.Operable branch
  | _ => True

/-- The type of an operator keeps the value that it has as a constant. -/
theorem constantOf_keeps
    {tree : Tree}
    {kind : ExprKind}
    {ty : Ty}
    {place : Span}
    {value : Value}
    (operates : tree.Operates ty kind)
    (literal : ∀ content, kind = .literal content → ty.Keeps (.ofLiteral content))
    (constant : tree.constantOf tree.constant? ⟨kind, ty, place⟩ = .ok (some value)) :
    ty.Keeps value := by
  cases kind with
  | literal content =>
      cases constant
      exact literal content rfl
  | unary op operand =>
      obtain ⟨fits, operable⟩ := operates
      obtain ⟨result, isOperand, isResult⟩ := constantOf_unary constant
      obtain ⟨first, isConstant, converted⟩ := constantAs_ok isOperand
      obtain ⟨same, keeps⟩ := convertConstant_operand fits (operable first isConstant)
      cases same.symm.trans converted
      refine UnaryOp.apply_keeps ?_ keeps isResult
      obtain ⟨-, isBoolean⟩ | isNumber := Compile.unaryType?_type fits
      · exact .inr isBoolean
      · exact .inl (Ty.arithmeticResult?_computes isNumber)
  | binary op operandType left right =>
      obtain ⟨first, second, -, -, isResult⟩ := constantOf_binary constant
      obtain ⟨isOperand, rfl⟩ := binaryTypes?_types operates
      exact BinaryOp.apply_keeps isOperand isResult
  | logical op left right =>
      obtain ⟨_, _, truth, other, -, -, -, -, rfl⟩ := constantOf_logical constant
      obtain rfl : ty = .boolean := operates
      exact .bool _
  | conditional condition whenTrue whenFalse =>
      obtain ⟨_, truth, -, -, isBranch⟩ := constantOf_conditional constant
      obtain ⟨first, isConstant, converted⟩ := constantAs_ok isBranch
      obtain ⟨widens, operable⟩ := operates (if truth then whenTrue else whenFalse)
        (by cases truth <;> simp)
      exact convertConstant_keeps widens (operable first isConstant) converted
  | _ => cases constant

section Growth

variable {before after : Tree} {ty : Ty}

/-- While a tree grows, it says the same of the constants in it. -/
theorem Grows.operable_iff
    {id : ExprId}
    (grows : before.Grows after)
    (partsFirst : before.PartsFirst)
    (inside : id.index < before.exprs.size) :
    after.Operable id ↔ before.Operable id := by
  unfold Operable
  rw [grows.expr inside, grows.constant? partsFirst inside]

/-- While a tree grows, it says the same of the types of the operators in it. -/
theorem Grows.operates_iff
    {kind : ExprKind}
    (grows : before.Grows after)
    (partsFirst : before.PartsFirst)
    (there : ∀ child ∈ kind.children, child.index < before.exprs.size) :
    after.Operates ty kind ↔ before.Operates ty kind := by
  cases kind with
  | unary op operand =>
      have inside := there operand (List.mem_singleton_self _)
      simp only [Operates, grows.expr inside, grows.operable_iff partsFirst inside]
  | binary op operandType left right =>
      have isLeft := there left List.mem_cons_self
      have isRight := there right (List.mem_cons_of_mem _ (List.mem_singleton_self _))
      simp only [Operates, grows.expr isLeft, grows.expr isRight]
  | logical op left right => exact Iff.rfl
  | conditional condition whenTrue whenFalse =>
      refine forall₂_congr fun branch isBranch => ?_
      have inside := there branch (List.mem_cons_of_mem _ isBranch)
      rw [grows.expr inside, grows.operable_iff partsFirst inside]
  | _ => exact Iff.rfl

end Growth

end Tree

end BotScript
