import BotScript.Proofs.TwinExpressions

namespace BotScript

/-!
# Twin statements

Two compilations of a statement add the same statement.
-/

namespace Compile

variable {α β γ δ : Type} {twins : Twins} {least : Nat} {state : CompileState} {other : Tree}

/-! ## Declarations of variables -/

/-- An error in one case, and steps with equal results in the other case. -/
theorem Matches.otherwise
    {condition : Prop}
    [Decidable condition]
    {step twin step' twin' : Compile α}
    [Matches twins least step twin]
    (rest : Matches twins least step' twin') :
    Matches twins least (if condition then step else step') (if condition then twin else twin') :=
  ite condition step twin step' twin'

instance (id : ClassId) (arguments : List ExprId) (place : Stretch twins) :
    Matches twins least (construction id arguments place.left)
      (construction id arguments place.right) :=
  .ofIssues fun _ _ => .construction id arguments place

instance (ty : Ty) : Matches twins 1 (initializer expression ty) (initializer expression ty) :=
  .ofIssues fun _ _ => .initializer (fun _ _ => .expression) ty

instance (size : ExprId) : Matches twins least (limitOf size) (limitOf size) := by
  unfold limitOf
  infer_instance

instance : Matches twins 1 parseLimits parseLimits := by
  unfold parseLimits
  infer_instance

instance (base : Ty) : Matches twins 1 (declaredType base) (declaredType base) := by
  unfold declaredType
  infer_instance

instance (ty : Ty) (place : Stretch twins) :
    Matches twins 1 (initialValue ty place.left) (initialValue ty place.right) := by
  unfold initialValue
  refine Matches.andThen fun found => ?_
  split <;> infer_instance

instance (name : String) (ty : Ty) (place : Place twins) :
    Matches twins least (declareVariable name ty place.left)
      (declareVariable name ty place.right) where
  alike _ _ := by
    unfold declareVariable
    refine .onState fun position scope tree twin _ _ _ => .checking place.places fun slot _ => ?_
    have rest : Matches twins least (modifyScope (fun _ => slot.2) >>= fun _ => pure slot.1)
        (modifyScope (fun _ => slot.2) >>= fun _ => pure slot.1) := inferInstance
    exact rest.alike _ _

instance : Matches twins 1 declarations declarations := by
  unfold declarations
  refine .yielding fun start => .andThen fun base => ?_
  refine .otherwise (.repeats fun collected => ?_)
  refine .yielding fun named => .andThen fun declared => ?_
  infer_instance

instance : Matches twins 1 atDeclaration atDeclaration := by
  unfold atDeclaration
  refine .yielding fun common => ?_
  dsimp only
  split
  · infer_instance
  · refine .andThen fun next => ?_
    split <;> infer_instance
  · infer_instance

instance : Matches twins 1 declarationStatement declarationStatement := by
  unfold declarationStatement
  refine .yielding fun start => .andThen fun collected => .andThen fun _ => ?_
  split <;> infer_instance

instance : Matches twins 1 expressionStatement expressionStatement where
  alike _ _ := by
    unfold expressionStatement
    refine Alike.expression.issuing fun _ _ value _ issued => .behind fun _ _ _ leads => ?_
    exact .atExpr (leads.issued issued) fun _ => .matching

/-- Steps with equal results in both cases. -/
theorem Matches.branches
    {condition : Prop}
    [Decidable condition]
    {step twin step' twin' : Compile α}
    (whenTrue : Matches twins least step twin)
    (whenFalse : Matches twins least step' twin') :
    Matches twins least (if condition then step else step') (if condition then twin else twin') :=
  ite condition step twin step' twin'

/-- Steps of two cases with equal results, and what follows both. -/
theorem Matches.either
    {condition : Prop}
    [Decidable condition]
    {step twin step' twin' : Compile α}
    {next after : α → Compile β}
    [Matches twins least step twin]
    [Matches twins least step' twin']
    (rest : ∀ value, Matches twins least (next value) (after value)) :
    Matches twins least (if condition then step >>= next else step' >>= next)
      (if condition then twin >>= after else twin' >>= after) :=
  ite condition (step >>= next) (twin >>= after) (step' >>= next) (twin' >>= after)

/-! ## Parts of statements -/

instance (value : ExprId) : Matches twins least (checkBoolean value) (checkBoolean value) := by
  unfold checkBoolean
  infer_instance

instance : Matches twins 1 condition condition := by
  unfold condition
  infer_instance

instance : Matches twins 1 expressionList expressionList := by
  unfold expressionList
  infer_instance

instance : Matches twins 1 loopStart loopStart := by
  unfold loopStart
  infer_instance

instance : Matches twins 1 caseValue caseValue := by
  unfold caseValue
  infer_instance

section Nested

variable (nested : Compile StmtId) [Matches twins 1 nested nested]

instance : Matches twins 1 (blockBody nested) (blockBody nested) := by
  unfold blockBody
  infer_instance

instance : Matches twins 1 (scopedBlock nested) (scopedBlock nested) := by
  unfold scopedBlock
  infer_instance

instance : Matches twins 1 (block nested) (block nested) := by
  unfold block
  infer_instance

instance (label : Option String) :
    Matches twins 1 (loopBody nested label) (loopBody nested label) := by
  unfold loopBody
  infer_instance

/-! ## Branches and loops -/

instance : Matches twins 1 (branch nested) (branch nested) := by
  unfold branch
  infer_instance

instance (label : Option String) :
    Matches twins 1 (whileLoop nested label) (whileLoop nested label) := by
  unfold whileLoop
  infer_instance

instance (label : Option String) :
    Matches twins 1 (doLoop nested label) (doLoop nested label) := by
  unfold doLoop
  infer_instance

instance (label : Option String) :
    Matches twins 1 (forLoop nested label) (forLoop nested label) := by
  unfold forLoop
  refine .yielding fun start => .andThen fun _ => .andThen fun _ => .andThen fun _ => ?_
  refine .andThen fun initial => .andThen fun _ => .andThen fun isUntested => ?_
  refine .branches (.andThen fun test => ?_) (.andThen fun value => .andThen fun _ =>
    .andThen fun test => ?_)
  all_goals
    refine .andThen fun _ => .andThen fun isEmpty => .either fun steps => ?_
    infer_instance

instance (label : Option String) :
    Matches twins 1 (repeatLoop nested label) (repeatLoop nested label) := by
  unfold repeatLoop
  refine .yielding fun start => .andThen fun _ => .andThen fun _ => .andThen fun isEmpty => ?_
  refine .otherwise (.andThen fun count => .andThen fun ty => ?_)
  infer_instance

instance : Matches twins 1 (labeledLoop nested) (labeledLoop nested) := by
  unfold labeledLoop
  refine .andThen fun label => .andThen fun _ => .andThen fun _ => .andThen fun found => ?_
  split <;> infer_instance

/-! ## Switches, handlers and jumps -/

instance : Matches twins 1 (switchBody nested) (switchBody nested) := by
  unfold switchBody
  refine .repeats fun cases => .andThen fun isClosed => ?_
  refine .otherwise (.andThen fun isEnd => .otherwise (.yielding fun label => ?_))
  infer_instance

instance : Matches twins 1 (switchOn nested) (switchOn nested) := by
  unfold switchOn
  refine .yielding fun start => .andThen fun _ => .andThen fun _ => .andThen fun value => ?_
  refine .andThen fun ty => .otherwise (.andThen fun _ => .andThen fun _ => ?_)
  refine .andThen fun _ => .andThen fun cases => ?_
  infer_instance

/-- Catch clauses with their statements, which differ in their places only. -/
def SameClauses (_ : CompileState) (clauses other : List CatchClause) : Prop :=
  other.map CatchClause.shape = clauses.map CatchClause.shape

/-- The catch clauses behind a guarded block. -/
theorem Alike.catchClauses :
    Alike twins 1 state other SameClauses (Compile.catchClauses nested)
      (Compile.catchClauses nested) := by
  unfold Compile.catchClauses
  refine .loop (H := SameClauses) rfl fun between tree clauses others same => ?_
  refine .yielding fun _ _ start _ => .behind fun _ _ isCatch _ => .ite (fun _ => ?_) fun _ => ?_
  · refine .behind fun _ _ _ _ => .behind fun _ _ test _ => .yielding fun _ _ place _ => ?_
    refine .behind fun _ _ ty _ => .requiring place.places fun kind _ => .behind fun _ _ _ _ => ?_
    refine .yielding fun _ _ whole _ => .behind fun _ _ body _ => .pure (.again ?_)
    simpa [SameClauses, CatchClause.shape] using same
  · exact .pure (.done same)

instance : Matches twins 1 (guarded nested) (guarded nested) where
  alike _ _ := by
    unfold guarded
    refine .yielding fun _ _ start _ => .behind fun _ _ _ _ => .behind fun _ _ body _ => ?_
    refine (Alike.catchClauses nested).bind fun _ _ clauses others _ same => ?_
    have added (final : Option StmtId) (place : Place twins) :
        Matches twins 1 (addStmt (.guarded body clauses final) place.left)
          (addStmt (.guarded body others final) place.right) :=
      .addStmt (by rw [StmtKind.shape, StmtKind.shape, same]) place
    refine .behind fun _ _ isFinal _ => ?_
    split
    · exact .matching
    · exact .matching

end Nested

instance : Matches twins 1 throwStatement throwStatement := by
  unfold throwStatement
  infer_instance

instance (isContinue : Bool) : Matches twins 1 (jump isContinue) (jump isContinue) := by
  unfold jump
  refine .yielding fun start => .andThen fun _ => .andThen fun isLabeled => ?_
  refine .branches (.andThen fun name => .andThen fun _ => .andThen fun label => ?_)
    (.andThen fun label => ?_)
  all_goals
    refine .yielding fun place => .onState fun _ scope _ _ _ _ _ => ?_
    infer_instance

instance : Matches twins 1 returnStatement returnStatement := by
  unfold returnStatement
  refine .yielding fun start => .andThen fun _ => .onState fun _ scope _ _ _ _ _ => ?_
  refine .andThen fun isPlain => .either fun value => ?_
  cases value with
  | some value =>
      dsimp only
      infer_instance
  | none => exact .otherwise inferInstance

/-! ## Statements -/

section Nested

variable (nested : Compile StmtId) [Matches twins 1 nested nested]

instance (symbol : Symbol) :
    Matches twins 1 (symbolStatement nested symbol) (symbolStatement nested symbol) := by
  unfold symbolStatement
  split <;> infer_instance

instance : Matches twins 1 (statementWith nested) (statementWith nested) := by
  unfold statementWith
  refine .yielding fun common => ?_
  dsimp only
  split
  · infer_instance
  · refine .andThen fun next => ?_
    infer_instance
  · infer_instance

end Nested

instance (bound : Nat) : Matches twins 1 (statementWithin bound) (statementWithin bound) := by
  induction bound with
  | zero =>
      unfold statementWithin
      infer_instance
  | succ bound inductionHypothesis =>
      unfold statementWithin
      infer_instance

instance : Matches twins 1 statement statement := by
  unfold statement
  infer_instance

instance : Matches twins 1 functionBlock functionBlock := by
  unfold functionBlock
  infer_instance

end Compile

end BotScript
