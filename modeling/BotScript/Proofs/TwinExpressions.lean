import BotScript.Proofs.TwinReads

namespace BotScript

/-!
# Twin expressions

Two compilations of an expression add the same expressions over corresponding
spans.
-/

namespace Compile

variable {α β γ δ : Type} {twins : Twins} {least : Nat} {state : CompileState} {other : Tree}

/-! ## Members and calls -/

/-- An expression that both compilations may have added. -/
def IssuesAny (after : CompileState) (found other : Option ExprId) : Prop :=
  other = found ∧ ∀ id ∈ found, after.Issued id

/-- An expression is added by both compilations, and what follows. -/
theorem Alike.issuing
    {post : CompileState → γ → δ → Prop}
    {step twin : Compile ExprId}
    {next : ExprId → Compile γ}
    {after : ExprId → Compile δ}
    (first : Alike twins least state other Issues step twin)
    (rest : ∀ between tree id, state.Leads between → between.Issued id →
      Alike twins least between tree post (next id) (after id)) :
    Alike twins least state other post (step >>= next) (twin >>= after) :=
  first.bind fun between tree id _ leads ⟨same, issued⟩ => by
    subst same
    exact rest between tree _ leads issued

/-- The receiver of a class. -/
theorem Alike.addThis (owner : ClassId) (place : Stretch twins) :
    Alike twins least state other Issues (Compile.addThis owner place.left)
      (Compile.addThis owner place.right) := by
  unfold Compile.addThis
  refine .onTree fun tree twin shape => ?_
  rw [Tree.className_of_shape shape]
  exact .addExpr place.spans

/-- A field of a class or of its instances. -/
theorem Alike.fieldAccess?
    {object : Option ExprId}
    (issued : ∀ id ∈ object, state.Issued id)
    (id : ClassId)
    (name : String)
    (place : Stretch twins) :
    Alike twins least state other IssuesAny (Compile.fieldAccess? object id name place.left)
      (Compile.fieldAccess? object id name place.right) := by
  unfold Compile.fieldAccess?
  refine .onState fun position scope tree twin shape _ _ => ?_
  dsimp only
  have instances := tree.instanceField?_shape id name
  rw [← shape, Tree.instanceField?_shape] at instances
  have found :
      (if object.isSome || scope.hasThis then instanceField? twin id name else none).map
          Tree.fieldShape =
        (if object.isSome || scope.hasThis then instanceField? tree id name else none).map
          Tree.fieldShape := by
    split
    · exact instances
    · rfl
  obtain ⟨isFirst, isSecond⟩ | ⟨index, owner, field, field', isFirst, isSecond, visibility, ty⟩ :=
    paired_field found
  · rw [isFirst, isSecond]
    refine .onTree fun tree twin shape => .onTree fun _ _ shape' => ?_
    rw [Tree.same_of_shape shape' (·.classChain id) fun tree => tree.classChain_shape id]
    have statics (chain : List ClassId) := tree.staticField?_shape name chain
    simp only [← shape, Tree.staticField?_shape] at statics
    obtain ⟨isFirst, isSecond⟩ | ⟨index, owner, field, field', isFirst, isSecond, visibility, ty⟩ :=
      paired_field (statics _)
    · rw [isFirst, isSecond]
      exact .pure ⟨rfl, nofun⟩
    · rw [isFirst, isSecond]
      dsimp only
      rw [visibility, ty]
      exact .behind fun _ _ _ _ => (Alike.addExpr place.spans).issuing fun _ _ id _ issued =>
        .pure ⟨rfl, by rintro _ ⟨⟩; exact issued⟩
  · rw [isFirst, isSecond]
    dsimp only
    rw [visibility, ty]
    refine .behind fun between tree _ leads => ?_
    cases object with
    | some object =>
        refine .reading rfl rfl (.atExpr (leads.issued (issued object rfl)) fun whole => ?_)
        refine (Alike.addExpr (whole.spans.merge place.spans)).issuing fun _ _ id _ issued => ?_
        exact .pure ⟨rfl, by rintro _ ⟨⟩; exact issued⟩
    | none =>
        refine (Alike.addThis id place).issuing fun _ _ this _ issued => ?_
        refine .atExpr issued fun whole => ?_
        refine (Alike.addExpr (whole.spans.merge place.spans)).issuing fun _ _ id _ issued => ?_
        exact .pure ⟨rfl, by rintro _ ⟨⟩; exact issued⟩

instance (candidates : List MethodImpl) (types : List Ty) (place : Place twins) :
    Matches twins least (selectOverload candidates types place.left)
      (selectOverload candidates types place.right) where
  alike _ _ := by
    unfold selectOverload
    refine .onTree fun tree twin shape => .reading rfl rfl ?_
    rw [Twins.registry_first, Twins.registry_second,
      Tree.same_of_shape shape (·.resolveOverload twins.registry candidates types) fun tree =>
        tree.resolveOverload_shape twins.registry candidates types]
    exact .matching

/-- The call of a method of an object. -/
theorem Alike.methodCall
    {object : ExprId}
    (issued : state.Issued object)
    (id : ClassId)
    (name : String)
    (place : Stretch twins)
    (arguments : List ExprId) :
    Alike twins 1 state other Issues (Compile.methodCall object id name place.left arguments)
      (Compile.methodCall object id name place.right arguments) := by
  unfold Compile.methodCall
  refine .behind fun between _ types leads => .onTree fun tree twin shape => ?_
  rw [Tree.same_of_shape shape (·.methodCandidates id name) fun tree =>
    tree.methodCandidates_shape id name]
  dsimp only
  refine .ite (fun _ => .failedThen place.places) fun _ => ?_
  refine .behind fun second _ overload further => .requiring place.places fun chosen _ => ?_
  refine .behind fun last _ _ final => ?_
  refine .atExpr (final.issued (further.issued (leads.issued issued))) fun start => ?_
  exact .yielding fun _ _ whole _ => .addExpr whole.spans

/-- An unqualified call. -/
theorem Alike.unqualifiedCall (name : String) (place : Stretch twins) (arguments : List ExprId) :
    Alike twins 1 state other Issues (Compile.unqualifiedCall name place.left arguments)
      (Compile.unqualifiedCall name place.right arguments) := by
  unfold Compile.unqualifiedCall
  refine .behind fun _ _ types _ => .yielding fun _ _ whole _ => ?_
  refine .onState fun position scope tree twin _ _ _ => ?_
  dsimp only
  generalize (if scope.hasThis = true then scope.owner else none) = receiver
  cases receiver
  on_goal 2 =>
    rename_i id
    refine .onTree fun tree twin shape => ?_
    rw [Tree.same_of_shape shape (·.methodCandidates id name) fun tree =>
      tree.methodCandidates_shape id name]
    refine .ite (fun _ => ?_) fun _ => ?_
    · exact (Alike.addThis id place).issuing fun _ _ this _ issued =>
        .methodCall issued id name place arguments
  -- Without a receiver, or without a method of the name, the call goes elsewhere.
  all_goals
    refine .reading rfl rfl ?_
    rw [Twins.registry_first, Twins.registry_second]
    cases twins.registry.resolve? types (twins.registry.functionsNamed name) with
    | some found => exact .checking place.places fun accepted _ => .addExpr whole.spans
    | none =>
        refine .onTree fun tree twin shape => ?_
        rw [Tree.same_of_shape shape (·.functionsNamed name) fun tree =>
          tree.functionsNamed_shape name]
        refine .ite (fun _ => .failedThen place.places) fun _ => .behind fun _ _ overload _ => ?_
        cases overload.target with
        | user function => exact .addExpr whole.spans
        | native _ => exact .failAt place.places

/-- The construction of an instance. -/
theorem Alike.construction (id : ClassId) (arguments : List ExprId) (place : Stretch twins) :
    Alike twins least state other Issues (Compile.construction id arguments place.left)
      (Compile.construction id arguments place.right) := by
  unfold Compile.construction
  refine .onTree fun tree twin shape => .onTree fun tree' twin' shape' => ?_
  rw [Tree.className_of_shape shape, Tree.same_of_shape shape' (·.constructors id) fun tree =>
    tree.constructors_shape id]
  dsimp only
  refine .ite (fun _ => .ite (fun _ => .failedThen place.places) fun _ => ?_) fun _ => ?_
  · exact .reading rfl rfl (.addExpr place.spans)
  · refine .behind fun _ _ types _ => .onTree fun tree twin shape => .reading rfl rfl ?_
    rw [Twins.registry_first, Twins.registry_second,
      Tree.same_of_shape shape
        (·.resolveOverload twins.registry ((tree'.constructors id).map (·.target)) types)
        fun tree => tree.resolveOverload_shape twins.registry _ types]
    split
    · exact .failAt place.places
    · split
      · exact .behind fun _ _ _ _ => .addExpr place.spans
      · exact .reading rfl rfl (.addExpr place.spans)

/-- An expression that both compilations add is the same. -/
theorem Matches.ofIssues
    {step twin : Compile ExprId}
    (alike : ∀ state other, Alike twins least state other Issues step twin) :
    Matches twins least step twin where
  alike state other := (alike state other).weaken fun _ _ _ _ issues => issues.1

instance (nested : Compile ExprId) [Matches twins least nested nested] :
    Matches twins least (arguments nested) (arguments nested) := by
  unfold arguments
  infer_instance

/-! ## Literals and steps of variables -/

/-- Steps over the trees, in which an expression differs in its place only. -/
theorem Alike.atNode
    {post : CompileState → γ → δ → Prop}
    {id : ExprId}
    {next : Tree → Compile γ}
    {after : Tree → Compile δ}
    (issued : state.Issued id)
    (rest : ∀ (tree twin : Tree) kind ty (place : Stretch twins),
      tree.expr id = ⟨kind, ty, place.left⟩ → twin.expr id = ⟨kind, ty, place.right⟩ →
      Alike twins least state other post (next tree) (after twin)) :
    Alike twins least state other post (tree >>= next) (tree >>= after) :=
  .withTwin fun corresponds => .reading rfl rfl (by
    have spans := corresponds.exprs id issued
    have shape := corresponds.expr_shape id
    have kind : (other.expr id).kind = (state.tree.expr id).kind := congrArg (·.kind) shape
    have ty : (other.expr id).ty = (state.tree.expr id).ty := congrArg (·.ty) shape
    refine rest _ _ (state.tree.expr id).kind (state.tree.expr id).ty (.of spans) rfl ?_
    rw [CompileState.tree_withTree, ← kind, ← ty]
    rfl)

/-- A literal. -/
theorem Alike.addLiteral (value : LiteralValue) (ty : Ty) :
    Alike twins least state other Issues (Compile.addLiteral value ty)
      (Compile.addLiteral value ty) := by
  unfold Compile.addLiteral
  exact .yielding fun _ _ place _ => .behind fun _ _ _ _ => .addExpr place.spans

/-- A step of a variable by one. -/
theorem Alike.addStep
    {target : ExprId}
    (issued : state.Issued target)
    (op : StepOp)
    (start : Stretch twins) :
    Alike twins 1 state other Issues (Compile.addStep op target start.left)
      (Compile.addStep op target start.right) := by
  unfold Compile.addStep
  refine .atNode issued fun tree twin kind ty place isFirst isSecond => ?_
  rw [isFirst, isSecond]
  dsimp only
  refine .ite (fun _ => .failedThen place.places) fun _ => ?_
  refine .ite (fun _ => .failedThen place.places) fun _ => ?_
  exact .yielding fun _ _ whole _ => .addExpr whole.spans

/-- The application of a binary or logical operator. -/
theorem Alike.combine
    {left right : ExprId}
    (symbol : Symbol)
    (place : Stretch twins)
    (hasLeft : state.Issued left)
    (hasRight : state.Issued right) :
    Alike twins least state other Issues (Compile.combine symbol place.left left right)
      (Compile.combine symbol place.right left right) := by
  unfold Compile.combine
  refine .atExpr hasLeft fun start => .atExpr hasRight fun stop => ?_
  have spans := start.spans.merge stop.spans
  refine .behind fun _ _ leftType _ => .behind fun _ _ rightType _ => ?_
  cases logicalOp? symbol with
  | some op =>
      dsimp only
      exact .ite (fun _ => .failedThen place.places) fun _ => .reading rfl rfl (.addExpr spans)
  | none =>
      exact .requiring place.places fun op _ => .requiring place.places fun types _ =>
        .addExpr spans

section Nested

variable {nested : Compile ExprId}
variable (alike : ∀ state other, Alike twins 1 state other Issues nested nested)

include alike

/-! ## Primary expressions and suffixes -/

/-- The construction at the keyword `new`. -/
theorem Alike.newExpression :
    Alike twins 1 state other Issues (Compile.newExpression nested)
      (Compile.newExpression nested) := by
  have := Matches.ofIssues alike
  unfold Compile.newExpression
  refine .yielding fun _ _ start _ => .behind fun _ _ _ _ => .yielding fun _ _ named _ => ?_
  refine .behind fun _ _ found _ => .requiring named.2.places fun id _ => ?_
  refine .behind fun _ _ isCall _ => ?_
  dsimp only
  split
  · exact .behind fun _ _ values _ => .yielding fun _ _ whole _ => .construction id values whole
  · exact .behind fun _ _ values _ => .yielding fun _ _ whole _ => .construction id values whole

/-- The expression at an identifier. -/
theorem Alike.identifier :
    Alike twins 1 state other Issues (Compile.identifier nested) (Compile.identifier nested) := by
  have := Matches.ofIssues alike
  unfold Compile.identifier
  refine .behind fun _ _ name _ => .yielding fun _ _ place _ => .behind fun _ _ _ _ => ?_
  refine .behind fun _ _ isCall _ => .ite (fun _ => ?_) fun _ => ?_
  · exact .behind fun _ _ values _ => .unqualifiedCall name place values
  · refine .onState fun position scope tree twin _ _ _ => ?_
    dsimp only
    split
    · split
      · exact .addThis _ place
      · exact .failedThen place.places
    · split
      · exact .addExpr place.spans
      · split
        · next owner _ =>
          refine (Alike.fieldAccess? (fun id found => absurd found (Option.not_mem_none id)) owner
            name place).bind ?_
          rintro after _ _ found _ ⟨rfl, issued⟩
          cases found with
          | none => exact .failAt place.places
          | some id => exact .pure ⟨rfl, issued id rfl⟩
        · exact .failAt place.places

/-- The expression at the current token, without suffixes. -/
theorem Alike.primary :
    Alike twins 1 state other Issues (Compile.primary nested) (Compile.primary nested) := by
  unfold Compile.primary
  refine .yielding fun _ _ common _ => ?_
  dsimp only
  split
  · refine .checking common.place.places fun value _ => ?_
    cases value <;> exact .addLiteral _ _
  · exact .checking common.place.places fun value _ => .addLiteral _ _
  · exact .checking common.place.places fun value _ => .addLiteral _ _
  · exact .addLiteral _ _
  · exact .identifier alike
  · exact .addLiteral _ _
  · exact .addLiteral _ _
  · exact .addLiteral _ _
  · exact .addLiteral _ _
  · exact .behind fun _ _ _ _ => (alike _ _).issuing fun _ _ inner _ issued =>
      .behind fun _ _ _ leads => .pure ⟨rfl, leads.issued issued⟩
  · exact .newExpression alike
  · exact .failed
  · exact .failed

/-- The member behind a point. -/
theorem Alike.member {object : ExprId} (issued : state.Issued object) :
    Alike twins 1 state other Issues (Compile.member nested object)
      (Compile.member nested object) := by
  have := Matches.ofIssues alike
  unfold Compile.member
  refine .atExpr issued fun place => .behind fun _ _ ty leads => .behind fun _ _ found further => ?_
  refine .requiring place.places fun id _ => .yielding fun _ _ named goesOn => ?_
  refine .behind fun between _ isCall last => ?_
  have issued := last.issued (goesOn.issued (further.issued (leads.issued issued)))
  refine .ite (fun _ => .behind fun _ _ values leads => ?_) fun _ => ?_
  · exact .methodCall (leads.issued issued) id named.1 named.2 values
  · refine (Alike.fieldAccess? ?_ id named.1 named.2).bind ?_
    · rintro _ ⟨⟩
      exact issued
    · rintro after _ _ found _ ⟨rfl, issued⟩
      cases found with
      | none => exact .failAt named.2.places
      | some id => exact .pure ⟨rfl, issued id rfl⟩

/-- The element behind an opening bracket. -/
theorem Alike.element {array : ExprId} (issued : state.Issued array) :
    Alike twins 1 state other Issues (Compile.element nested array)
      (Compile.element nested array) := by
  have := Matches.ofIssues alike
  unfold Compile.element
  refine .atExpr issued fun place => .behind fun _ _ ty leads => ?_
  refine .requiring place.places fun _ _ => ?_
  refine .behind fun _ _ position further => .behind fun _ _ indexType goesOn => ?_
  refine .ite (fun _ => .yielding fun _ _ place _ => .failedThen place.places) fun _ => ?_
  refine .behind fun _ _ _ last => .atExpr ?_ fun start => .yielding fun _ _ whole _ => ?_
  · exact last.issued (goesOn.issued (further.issued (leads.issued issued)))
  · exact .addExpr whole.spans

/-- A primary expression with its suffixes. -/
theorem Alike.suffixed :
    Alike twins 1 state other Issues (Compile.suffixed nested) (Compile.suffixed nested) := by
  unfold Compile.suffixed
  refine (Alike.primary alike).bind fun _ _ _ _ _ issues => ?_
  refine .loop issues ?_
  rintro between tree value _ ⟨rfl, issued⟩
  refine .behind fun _ _ found leads => ?_
  have issued := leads.issued issued
  have again {step twin : Compile ExprId} {state : CompileState} {other : Tree}
      (alike : Alike twins 1 state other Issues step twin) :
      Alike twins 1 state other (Turn.Pairs Issues Issues)
        (do return Turn.again (← step)) (do return Turn.again (← twin)) :=
    alike.bind fun _ _ _ _ _ issues => .pure (.again issues)
  split
  · exact .behind fun _ _ _ leads => again (.member alike (leads.issued issued))
  · exact .behind fun _ _ _ leads => again (.element alike (leads.issued issued))
  · refine .behind fun _ _ _ leads => .atExpr (leads.issued issued) fun start => again ?_
    exact .addStep (leads.issued issued) _ start
  · refine .behind fun _ _ _ leads => .atExpr (leads.issued issued) fun start => again ?_
    exact .addStep (leads.issued issued) _ start
  · exact .pure (.done ⟨rfl, issued⟩)

/-! ## Operators -/

/-- A suffixed expression with prefix operators. -/
theorem Alike.prefixedWithin (bound : Nat) :
    Alike twins 1 state other Issues (Compile.prefixedWithin nested bound)
      (Compile.prefixedWithin nested bound) := by
  induction bound generalizing state other with
  | zero => exact .failed
  | succ bound inductionHypothesis =>
      unfold Compile.prefixedWithin
      refine .yielding fun _ _ start _ => .behind fun _ _ found _ => ?_
      cases found with
      | none => exact .suffixed alike
      | some symbol =>
          dsimp only
          split
          · next op _ =>
            refine .behind fun _ _ _ _ => inductionHypothesis.issuing fun _ _ operand _ issued => ?_
            refine .atExpr issued fun place => .behind fun _ _ ty _ => ?_
            exact .requiring place.places fun _ _ => .yielding fun _ _ whole _ =>
              .addExpr whole.spans
          · refine .ite (fun _ => ?_) fun _ => .suffixed alike
            refine .behind fun _ _ _ _ => inductionHypothesis.issuing fun _ _ target _ issued => ?_
            exact .addStep issued _ start

/-- A suffixed expression with its prefix operators. -/
theorem Alike.prefixed :
    Alike twins 1 state other Issues (Compile.prefixed nested) (Compile.prefixed nested) := by
  unfold Compile.prefixed
  exact .behind fun _ _ _ _ => .prefixedWithin alike _

end Nested

/-- Operands joined by operators of one level. -/
theorem Alike.joined
    {operand : Compile ExprId}
    (alike : ∀ state other, Alike twins 1 state other Issues operand operand)
    (operators : List Symbol) :
    Alike twins 1 state other Issues (Compile.joined operators operand)
      (Compile.joined operators operand) := by
  unfold Compile.joined
  refine (alike state other).bind fun _ _ _ _ _ issues => .loop issues ?_
  rintro between tree left _ ⟨rfl, issued⟩
  refine .behind fun _ _ found leads => ?_
  have issued := leads.issued issued
  cases found with
  | none => exact .pure (.done ⟨rfl, issued⟩)
  | some symbol =>
      refine .yielding fun _ _ place further => ?_
      refine (alike _ _).issuing fun _ _ right last hasRight => ?_
      refine (Alike.combine symbol place (last.issued (further.issued issued)) hasRight).bind ?_
      exact fun _ _ _ _ _ issues => .pure (.again issues)

/-- An expression of binary operators. -/
theorem Alike.binary
    {operand : Compile ExprId}
    (alike : ∀ state other, Alike twins 1 state other Issues operand operand)
    (levels : List (List Symbol)) :
    Alike twins 1 state other Issues (Compile.binary operand levels)
      (Compile.binary operand levels) := by
  induction levels generalizing state other with
  | nil => exact alike state other
  | cons operators tighter inductionHypothesis =>
      exact .joined (fun _ _ => inductionHypothesis) operators

section Nested

variable {nested : Compile ExprId}
variable (alike : ∀ state other, Alike twins 1 state other Issues nested nested)

include alike

/-- A conditional expression, or only its condition. -/
theorem Alike.conditional :
    Alike twins 1 state other Issues (Compile.conditional nested)
      (Compile.conditional nested) := by
  unfold Compile.conditional
  refine (Alike.binary (fun _ _ => .prefixed alike) levels).issuing fun _ _ condition _ issued => ?_
  refine .behind fun _ _ isConditional leads => ?_
  have issued := leads.issued issued
  refine .ite (fun _ => .pure ⟨rfl, issued⟩) fun _ => .behind fun _ _ ty leads => ?_
  have issued := leads.issued issued
  refine .ite (fun _ => .yielding fun _ _ place _ => .failedThen place.places) fun _ => ?_
  refine (alike _ _).issuing fun _ _ whenTrue leads _ => .behind fun _ _ _ further => ?_
  have issued := further.issued (leads.issued issued)
  refine (alike _ _).issuing fun _ _ whenFalse leads hasFalse => .atExpr hasFalse fun place => ?_
  have issued := leads.issued issued
  refine .onTree fun tree twin shape => .behind fun _ _ trueType leads => ?_
  refine .behind fun _ _ falseType further => ?_
  rw [Tree.same_of_shape shape (·.commonType? trueType falseType) fun tree =>
    tree.commonType?_shape trueType falseType]
  refine .requiring place.places fun ty _ => ?_
  refine .atExpr (further.issued (leads.issued issued)) fun start => ?_
  refine .atExpr (further.issued (leads.issued hasFalse)) fun stop => ?_
  exact .addExpr (start.spans.merge stop.spans)

/-- An expression whose value fits a type. -/
theorem Alike.fitting (ty : Ty) :
    Alike twins 1 state other Issues (Compile.fitting nested ty)
      (Compile.fitting nested ty) := by
  unfold Compile.fitting
  exact (alike _ _).issuing fun _ _ value _ issued => .behind fun _ _ _ leads =>
    .pure ⟨rfl, leads.issued issued⟩

/-- The value that a declaration or an assignment stores. -/
theorem Alike.initializer (ty : Ty) :
    Alike twins 1 state other Issues (Compile.initializer nested ty)
      (Compile.initializer nested ty) := by
  induction ty generalizing state other with
  | array elementType inductionHypothesis =>
      have : Matches twins 1 (Compile.initializer nested elementType)
          (Compile.initializer nested elementType) :=
        .ofIssues fun _ _ => inductionHypothesis
      unfold Compile.initializer
      refine .behind fun _ _ isList _ => .ite (fun _ => ?_) fun _ => .fitting alike _
      refine .yielding fun _ _ start _ => .behind fun _ _ _ _ => .behind fun _ _ isEmpty _ => ?_
      dsimp only
      refine .ite (fun _ => ?_) fun _ => ?_
      · exact .behind fun _ _ items _ => .yielding fun _ _ whole _ => .addExpr whole.spans
      · exact .behind fun _ _ items _ => .yielding fun _ _ whole _ => .addExpr whole.spans
  | _ => exact .fitting alike _

/-- An assignment, or only a conditional expression. -/
theorem Alike.assignment :
    Alike twins 1 state other Issues (Compile.assignment nested)
      (Compile.assignment nested) := by
  unfold Compile.assignment
  refine (Alike.conditional alike).issuing fun _ _ target _ issued => ?_
  refine .behind fun _ _ found leads => ?_
  have issued := leads.issued issued
  split
  · exact .pure ⟨rfl, issued⟩
  · next symbol _ =>
    refine .yielding fun _ _ symbolPlace leads => ?_
    have issued := leads.issued issued
    refine .atNode issued fun tree twin kind ty place isFirst isSecond => ?_
    rw [isFirst, isSecond]
    dsimp only
    refine .ite (fun _ => .failedThen place.places) fun _ => .behind fun _ _ _ _ => ?_
    split
    · refine (Alike.initializer alike ty).issuing fun _ _ value _ hasValue => ?_
      exact .atExpr hasValue fun whole => .addExpr (place.spans.merge whole.spans)
    · refine (alike _ _).issuing fun _ _ value _ hasValue => .behind fun _ _ valueType leads => ?_
      refine .requiring symbolPlace.places fun operand _ => ?_
      exact .atExpr (leads.issued hasValue) fun whole => .addExpr (place.spans.merge whole.spans)

end Nested

/-- An expression whose nested expressions go no deeper than a bound. -/
theorem Alike.expressionWithin (bound : Nat) :
    Alike twins 1 state other Issues (Compile.expressionWithin bound)
      (Compile.expressionWithin bound) := by
  induction bound generalizing state other with
  | zero => exact .failed
  | succ bound inductionHypothesis => exact .assignment fun _ _ => inductionHypothesis

/-- An expression. -/
theorem Alike.expression :
    Alike twins 1 state other Issues Compile.expression Compile.expression := by
  unfold Compile.expression
  exact .behind fun _ _ _ _ => .expressionWithin _

instance : Matches twins 1 expression expression :=
  .ofIssues fun _ _ => .expression

end Compile

end BotScript
