import BotScript.Proofs.BuildingCalls

namespace BotScript

/-!
# Expressions that are built

An expression refers to what has been added before it, and it reads variables of
the scope only.
-/

/-- A variable that is visible is one of the variables of the function. -/
theorem Scope.lookup?_inside
    {scope : Scope}
    {name : String}
    {slot : LocalSlot}
    {ty : Ty}
    (found : scope.lookup? name = some (slot, ty)) :
    slot.index < scope.locals.length := by
  unfold Scope.lookup? at found
  split at found
  · cases found
  · next function isFunction =>
      split at found
      · cases found
      · obtain ⟨entry, isEntry, same⟩ := Option.map_eq_some_iff.mp found
        cases same
        simp only [Scope.locals, isFunction, Array.length_toList]
        exact (Array.getElem?_eq_some_iff.mp isEntry).1

namespace Compile.Builds

variable {context : CompileContext} {known : NativeId → Prop} {own : Nat}
  {state : CompileState}

/-! ## Literals and steps of variables -/

/-- A literal that its type keeps. -/
theorem addLiteral
    {value : LiteralValue}
    {ty : Ty}
    (keeps : ty.Keeps (.ofLiteral value)) :
    Builds context known own state CompileState.HasOperand (Compile.addLiteral value ty) := by
  unfold Compile.addLiteral
  refine reading rfl (behind fun _ _ _ => addOperand (.plain rfl nofun fun _ => trivial) ?_)
  rintro _ ⟨⟩
  exact keeps

/-- An integer is kept by the type of its literal. -/
theorem keeps_integerType (value : Int64) : (integerType value).Keeps (.int value) := by
  unfold integerType
  split
  · next narrow => exact .int (eq_of_beq narrow).symm
  · exact .long value

/-- A step of a variable by one. -/
theorem addStep
    {op : StepOp}
    {target : ExprId}
    {start : Span}
    (has : state.HasExpr target) :
    Builds context known own state CompileState.HasOperand (Compile.addStep op target start) := by
  unfold Compile.addStep
  refine reading rfl ?_
  dsimp only
  split
  · exact failedAtThen
  next isPlace =>
  have isPlace : (state.tree.expr target).kind.isPlace = true := by simpa using isPlace
  split
  · exact failedAtThen
  refine behind fun _ _ _ => addOperand ?_ (by rintro _ ⟨⟩)
  exact
    { children := List.forall_mem_singleton.mpr has
      slot := nofun
      refers := trivial
      short := fun _ => Nat.zero_le _
      meets := fun _ => trivial
      apt := isPlace
      operates := fun _ => trivial
      access := .ofOther rfl }

/-- The application of a binary or logical operator. -/
theorem combine
    {symbol : Symbol}
    {symbolSpan : Span}
    {left right : ExprId}
    (hasLeft : state.HasExpr left)
    (hasRight : state.HasExpr right) :
    Builds context known own state CompileState.HasOperand
      (Compile.combine symbol symbolSpan left right) := by
  have children : ∀ child ∈ [left, right], state.HasExpr child :=
    List.forall_mem_cons.mpr ⟨hasLeft, List.forall_mem_singleton.mpr hasRight⟩
  unfold Compile.combine
  refine reading rfl (reading rfl (reading rfl (reading rfl ?_)))
  dsimp only
  split
  · split
    · exact failedAtThen
    · exact addOperand (.plain rfl children fun _ => rfl) (by rintro _ ⟨⟩)
  · exact requiring fun op _ => requiring fun types isTypes =>
      addOperand (.plain rfl children fun _ => isTypes) (by rintro _ ⟨⟩)

section Nested

variable {nested : Compile ExprId}
  (builds : ∀ state, Builds context known own state CompileState.HasOperand nested)

include builds

/-- A nested expression as an argument or as a value that is stored. -/
theorem nestedExpr (state : CompileState) :
    Builds context known own state CompileState.HasExpr nested :=
  weaken (builds state) fun _ _ _ has => has.1

/-! ## Primary expressions and suffixes -/

/-- The construction at the keyword `new`. -/
theorem newExpression :
    Builds context known own state CompileState.HasOperand (Compile.newExpression nested) := by
  unfold Compile.newExpression
  refine reading rfl (behind fun _ _ _ => behind fun named _ _ => ?_)
  dsimp only
  refine resolving fun between found _ inside => requiring fun id isFound => ?_
  have inside := inside id isFound
  refine reading rfl ?_
  split
  · refine bind (arguments (nestedExpr builds)) fun after values onward has => behind fun whole _ _ => ?_
    refine construction ?_ (has.mono (.ofPosition ‹_›))
    exact Nat.lt_of_lt_of_le inside onward.tree.grows.classes_size
  · exact reading rfl (behind fun whole _ _ => construction inside .nil)

/-- The expression at an identifier. -/
theorem identifier :
    Builds context known own state CompileState.HasOperand (Compile.identifier nested) := by
  refine withReady fun ready => ?_
  unfold Compile.identifier
  refine reading rfl (reading rfl (behind fun _ position forth => reading rfl ?_))
  split
  · refine bind (arguments (nestedExpr builds)) fun after values _ has => ?_
    exact unqualifiedCall has
  · refine reading rfl ?_
    dsimp only
    split
    · split
      · next owner _ isOwner =>
        exact weaken (addThis owner _) fun _ _ _ added => added.1
      · exact failedAtThen
    · split
      · next slot ty found =>
        refine addOperand
          ⟨nofun, ?_, trivial, fun _ => Nat.zero_le _, fun _ => trivial, trivial,
            fun _ => trivial, .ofOther rfl⟩ (by rintro _ ⟨⟩)
        rintro _ ⟨⟩
        exact Scope.lookup?_inside found
      · split
        · next owner isOwner =>
          refine bind (fieldAccess? (ready.owner owner isOwner) nofun) fun after found _ has => ?_
          exact require has
        · exact reading rfl (require nofun)

/-- The expression at the current token, without suffixes. -/
theorem primary :
    Builds context known own state CompileState.HasOperand (Compile.primary nested) := by
  unfold Compile.primary
  refine reading rfl ?_
  split
  · refine checking fun value _ => ?_
    split
    · exact addLiteral (keeps_integerType _)
    · exact addLiteral (Ty.keeps_toSingle _)
  · exact checking fun value _ => addLiteral (.other _ ⟨rfl, rfl⟩)
  · exact checking fun value _ => addLiteral (Ty.keeps_character value)
  · exact addLiteral (keeps_integerType _)
  · exact identifier builds
  · exact addLiteral (.bool true)
  · exact addLiteral (.bool false)
  · exact addLiteral (.other _ ⟨rfl, rfl⟩)
  · exact addLiteral (.nan _)
  · refine behind fun _ _ _ => bind (builds _) fun after inner _ has => ?_
    exact behind fun _ _ _ => pure has
  · exact newExpression builds
  · exact failed
  · exact failed

omit builds in
/-- The class of the values of a type is read from the tree. -/
theorem classOf?_run
    (context : CompileContext)
    (state : CompileState)
    (ty : Ty) :
    ∃ found, classOf? ty context state = .ok (found, state) ∧
      ∀ id ∈ found, state.tree.ClassOf ty id := by
  cases ty with
  | object name => exact ⟨_, rfl, fun id isNamed => ⟨name, rfl, isNamed⟩⟩
  | _ => exact ⟨none, rfl, nofun⟩

/-- The member behind a point. -/
theorem member
    {object : ExprId}
    (has : state.HasExpr object) :
    Builds context known own state CompileState.HasOperand (Compile.member nested object) := by
  obtain ⟨found, runs, isClass⟩ := classOf?_run context state (state.tree.expr object).ty
  unfold Compile.member
  refine reading rfl (reading rfl (reading runs (requiring fun id isFound => ?_)))
  obtain ⟨className, isObject, isNamed⟩ := isClass id isFound
  refine behind fun named position forth => reading rfl ?_
  dsimp only
  split
  · refine bind (arguments (nestedExpr builds)) fun _ _ onward values =>
      methodCall (onward.hasExpr has) (fun _ => ?_) values
    rw [onward.tree.grows.expr has.1]
    exact ⟨className, isObject, onward.tree.grows.classNamed? isNamed⟩
  · refine bind (fieldAccess? (Tree.classNamed?_inside isNamed) ?_) fun _ _ _ has => require has
    rintro _ ⟨⟩
    exact ⟨has, fun _ => ⟨className, isObject, isNamed⟩⟩

/-- The element behind an opening bracket. -/
theorem element
    {array : ExprId}
    (has : state.HasExpr array) :
    Builds context known own state CompileState.HasOperand (Compile.element nested array) := by
  unfold Compile.element
  refine reading rfl (reading rfl (requiring fun ty isElement => ?_))
  have isArray : ∃ element, (state.tree.expr array).ty = .array element := by
    unfold Ty.element? at isElement
    split at isElement
    · next element isArray => exact ⟨element, isArray⟩
    · cases isElement
  refine bind (builds _) fun after position onward hasPosition => reading rfl ?_
  dsimp only
  split
  · exact reading rfl failedAtThen
  rw [← onward.tree.grows.expr has.1] at isArray
  refine behind fun _ _ _ => reading rfl (behind fun _ _ _ =>
    addOperand ?_ (by rintro _ ⟨⟩))
  exact
    { children := List.forall_mem_cons.mpr
        ⟨onward.hasExpr has, List.forall_mem_singleton.mpr hasPosition.1⟩
      slot := nofun
      refers := trivial
      short := fun _ => Nat.zero_le _
      meets := fun _ => trivial
      apt := isArray
      operates := fun _ => trivial
      access := .ofOther rfl }

/-- A primary expression with its suffixes. -/
theorem suffixed :
    Builds context known own state CompileState.HasOperand (Compile.suffixed nested) := by
  unfold Compile.suffixed
  refine bind (primary builds) fun between first _ has => ?_
  refine loop (H := CompileState.HasOperand) has fun between value _ has => reading rfl ?_
  split
  · exact behind fun _ _ _ => bind (member builds has.1) fun _ _ _ added => pure added
  · exact behind fun _ _ _ => bind (element builds has.1) fun _ _ _ added => pure added
  · exact behind fun _ _ _ => reading rfl (bind (addStep has.1) fun _ _ _ added => pure added)
  · exact behind fun _ _ _ => reading rfl (bind (addStep has.1) fun _ _ _ added => pure added)
  · exact pure has

/-! ## Operators -/

/-- A suffixed expression with prefix operators. -/
theorem prefixedWithin
    (bound : Nat) :
    Builds context known own state CompileState.HasOperand (Compile.prefixedWithin nested bound) := by
  induction bound generalizing state with
  | zero => exact failed
  | succ bound inductionHypothesis =>
      unfold Compile.prefixedWithin
      refine reading rfl (reading rfl ?_)
      split
      · exact suffixed builds
      · split
        · refine behind fun _ _ _ => bind inductionHypothesis fun after operand _ has => ?_
          refine reading rfl (reading rfl (requiring fun result isResult => behind fun _ _ _ => ?_))
          exact addOperand
            (.plain rfl (List.forall_mem_singleton.mpr has.1) fun fits => ⟨isResult, has.2 fits⟩)
            (by rintro _ ⟨⟩)
        · split
          · exact behind fun _ _ _ => bind inductionHypothesis fun after target _ has =>
              addStep has.1
          · exact suffixed builds

/-- A suffixed expression with its prefix operators. -/
theorem prefixed :
    Builds context known own state CompileState.HasOperand (Compile.prefixed nested) := by
  unfold Compile.prefixed
  exact reading rfl (prefixedWithin builds _)

/-- Operands joined by operators of one level. -/
theorem joined
    (operators : List Symbol) :
    Builds context known own state CompileState.HasOperand (Compile.joined operators nested) := by
  unfold Compile.joined
  refine bind (builds _) fun between first _ has => ?_
  refine loop (H := CompileState.HasOperand) has fun between left _ has => ?_
  refine behind fun found _ _ => ?_
  split
  · exact pure has
  · refine behind fun _ _ _ => bind (builds _) fun after right onward hasRight => ?_
    exact bind (combine (onward.hasExpr has.1) hasRight.1) fun _ _ _ added => pure added

/-- An expression of binary operators. -/
theorem binary
    (levels : List (List Symbol)) :
    Builds context known own state CompileState.HasOperand (Compile.binary nested levels) := by
  induction levels generalizing state with
  | nil => exact builds state
  | cons operators tighter inductionHypothesis =>
      exact joined (fun _ => inductionHypothesis) operators

/-- A conditional expression, or only its condition. -/
theorem conditional :
    Builds context known own state CompileState.HasOperand (Compile.conditional nested) := by
  unfold Compile.conditional
  refine bind (binary (fun _ => prefixed builds) levels) fun between condition _ has => ?_
  refine eating (fun _ _ _ => ?_) (pure has)
  refine reading rfl ?_
  dsimp only
  split
  · exact reading rfl failedAtThen
  refine bind (builds _) fun second whenTrue first hasTrue => expecting fun _ forth _ => ?_
  refine bind (builds _) fun third whenFalse last hasFalse => ?_
  have further := CompileState.Onward.trans (.ofPosition forth) last
  refine reading rfl (reading rfl (reading rfl (reading rfl (requiring fun ty isCommon => ?_))))
  refine reading rfl (reading rfl (addOperand (.plain rfl ?_ fun fits => ?_) (by rintro _ ⟨⟩)))
  · refine List.forall_mem_cons.mpr ⟨(first.trans further).hasExpr has.1, ?_⟩
    exact List.forall_mem_cons.mpr
      ⟨further.hasExpr hasTrue.1, List.forall_mem_singleton.mpr hasFalse.1⟩
  · refine List.forall_mem_cons.mpr
      ⟨⟨?_, (further.hasOperand hasTrue).2 fits⟩, List.forall_mem_singleton.mpr
        ⟨?_, hasFalse.2 fits⟩⟩
    · exact Tree.commonType?_widens isCommon (.inl rfl)
    · exact Tree.commonType?_widens isCommon (.inr rfl)

omit builds in
/-- An expression whose value fits a type. -/
theorem fitting
    (stores : ∀ state, Builds context known own state CompileState.HasExpr nested)
    (ty : Ty) :
    Builds context known own state CompileState.HasExpr (Compile.fitting nested ty) := by
  unfold Compile.fitting
  exact bind (stores _) fun _ _ _ has => behind fun _ _ _ => pure has

omit builds in
/-- The value that a declaration or an assignment stores. -/
theorem initializer
    (stores : ∀ state, Builds context known own state CompileState.HasExpr nested)
    (ty : Ty) :
    Builds context known own state CompileState.HasExpr (Compile.initializer nested ty) := by
  induction ty generalizing state with
  | array elementType inductionHypothesis =>
      unfold Compile.initializer
      refine reading rfl ?_
      split
      · refine reading rfl (behind fun _ _ _ => eating (fun _ _ _ => ?_) ?_)
        · exact reading rfl (behind fun _ _ _ => addExpr
            ⟨nofun, nofun, trivial, fun _ => Nat.zero_le _, fun _ => trivial, trivial,
              fun _ => trivial, .ofOther rfl⟩)
        · have items (state : CompileState) :
              Builds context known own state (CompileState.HasExprs context)
                (Compile.loop (fun items => do
                  let items := items ++ [← Compile.initializer nested elementType]
                  if ← eat .closeBlock then return .done items
                  expect .comma .closeBlock
                  return .again items) []) := by
            refine loop (H := CompileState.HasExprs context) .nil fun between collected _ has => ?_
            refine bind inductionHypothesis fun after id onward added => ?_
            have has := has.mono onward
            refine eating (fun position forth strictly => pure (has.snoc added strictly)) ?_
            exact expecting fun position forth strictly => pure (has.snoc added strictly)
          refine bind (items _) fun after values _ has => withReady fun ready => ?_
          exact behind fun _ _ _ => addExpr
            ⟨has.has, nofun, trivial, has.limit ready, fun _ => trivial, trivial, fun _ => trivial,
              .ofOther rfl⟩
      · exact fitting stores _
  | _ => exact fitting stores _

/-- An assignment, or only a conditional expression. -/
theorem assignment :
    Builds context known own state CompileState.HasOperand (Compile.assignment nested) := by
  unfold Compile.assignment
  refine bind (conditional builds) fun between target _ has => reading rfl ?_
  split
  · exact pure has
  · refine reading rfl (reading rfl ?_)
    dsimp only
    split
    · exact failedAtThen
    next isPlace =>
    have isPlace : (between.tree.expr target).kind.isPlace = true := by simpa using isPlace
    refine behind fun _ position _ => ?_
    have takes {after : CompileState} {value : ExprId} {op : Option BinaryOp} {operand ty : Ty}
        (onward : CompileState.Onward ⟨position, between.tree, between.scope⟩ after)
        (hasValue : after.HasExpr value) :
        after.Takes context known ty (.assign op operand target value) :=
      { children := List.forall_mem_cons.mpr
          ⟨onward.hasExpr has.1, List.forall_mem_singleton.mpr hasValue⟩
        slot := nofun
        refers := trivial
        short := fun _ => Nat.zero_le _
        meets := fun _ => trivial
        apt := by
          change (after.tree.expr target).kind.isPlace = true
          rw [onward.tree.grows.expr has.1.1]
          exact isPlace
        operates := fun _ => trivial
        access := .ofOther rfl }
    split
    · refine bind (initializer (nestedExpr builds) _) fun after value onward hasValue => ?_
      exact reading rfl (addOperand (takes onward hasValue) (by rintro _ ⟨⟩))
    · refine bind (nestedExpr builds _) fun after value onward hasValue => ?_
      exact reading rfl (requiring fun operand _ =>
        reading rfl (addOperand (takes onward hasValue) (by rintro _ ⟨⟩)))

end Nested

/-- An expression. -/
theorem expression :
    Builds context known own state CompileState.HasExpr Compile.expression := by
  have within (bound : Nat) :
      ∀ state, Builds context known own state CompileState.HasOperand (expressionWithin bound) := by
    induction bound with
    | zero => exact fun _ => failed
    | succ bound inductionHypothesis => exact fun _ => assignment inductionHypothesis
  exact reading rfl (nestedExpr (within _) state)

end Compile.Builds

end BotScript
