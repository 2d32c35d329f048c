import BotScript.Proofs.BuildingSteps
import BotScript.Proofs.TwinSteps

namespace BotScript

/-!
# What twin compilations read and add

Tokens at one position have the same kind and text and cover corresponding
spans.  Trees of the same shape answer every question of the compiler alike.
-/

namespace Compile

variable {α β γ δ σ τ : Type} {twins : Twins} {least : Nat} {state : CompileState} {other : Tree}

/-! ## The token at hand -/

instance : Matches twins least tokenCount tokenCount where
  alike _ _ corresponds := .accepted corresponds (Nat.le_refl _) twins.size_eq

/-- What two tokens have in common: their kind, their text and their places. -/
structure Sighting (twins : Twins) where
  kind : TokenKind
  text : String
  place : Stretch twins
  separators : String × String

/-- The tokens at a position differ in their places only. -/
theorem Sighting.at
    {position : Nat}
    (inside : position < twins.first.tokens.size) :
    ∃ common : Sighting twins,
      twins.first.token position =
          ⟨common.kind, common.text, common.place.left, common.separators.1⟩ ∧
        twins.second.token position =
          ⟨common.kind, common.text, common.place.right, common.separators.2⟩ := by
  have kind := twins.kind_eq position
  have text := twins.text_eq position
  have spans := twins.spans_token inside
  revert kind text spans
  generalize twins.first.token position = token
  generalize twins.second.token position = twin
  obtain ⟨kind, text, left, separator⟩ := token
  obtain ⟨kind', text', right, separator'⟩ := twin
  rintro ⟨⟩ ⟨⟩ spans
  exact ⟨⟨kind, text, .of spans, (separator, separator')⟩, rfl, rfl⟩

instance : Yields twins least current current
    (fun common : Sighting twins =>
      ⟨common.kind, common.text, common.place.left, common.separators.1⟩)
    (fun common => ⟨common.kind, common.text, common.place.right, common.separators.2⟩) where
  alike _ _ := .withTwin fun corresponds =>
    .reading rfl rfl (.pure (Sighting.at corresponds.inside))

instance : Yields twins least span span (fun common : Stretch twins => common.left)
    (fun common => common.right) where
  alike _ _ := .withTwin fun corresponds =>
    .reading rfl rfl (.pure ⟨.of (twins.spans_token corresponds.inside), rfl, rfl⟩)

instance : Matches twins least symbol? symbol? := by
  unfold symbol? Token.symbol?
  infer_instance

instance : Matches twins least text text := by
  unfold text
  infer_instance

instance : Matches twins least atEnd atEnd := by
  unfold atEnd
  infer_instance

instance (symbol : Symbol) : Matches twins least (at' symbol) (at' symbol) := by
  unfold at'
  infer_instance

instance (symbols : List Symbol) : Matches twins least (atAny symbols) (atAny symbols) := by
  unfold atAny
  refine Matches.andThen fun found => ?_
  split <;> infer_instance

instance : Matches twins least atIdentifier atIdentifier := by
  unfold atIdentifier
  infer_instance

instance : Matches twins least nextKind nextKind where
  alike _ _ := by
    unfold nextKind
    exact .reading rfl rfl (.behind fun between tree count _ =>
      .reading rfl rfl (.pure (twins.kind_eq _)))

/-- A step forward leads to the next token, or stays at the last one. -/
theorem advance_run (context : CompileContext) (state : CompileState) :
    advance context state = .ok ((), { state with position := context.next state.position }) := by
  change Except.ok ((), if state.position + 1 < context.tokens.size then _ else _) = _
  unfold CompileContext.next
  split <;> rfl

/-- A step forward has consumed a token. -/
theorem Alike.advance :
    Alike twins least state other (fun after _ _ => 0 < after.position) advance advance := by
  intro corresponds
  have next : twins.second.next state.position = twins.first.next state.position := by
    simp only [CompileContext.next, twins.size_eq]
  have moves :
      least ≤ twins.first.next state.position ∧
        twins.first.next state.position < twins.first.tokens.size ∧
        0 < twins.first.next state.position := by
    have several : 1 < twins.first.tokens.size := twins.several
    have reached := corresponds.least
    have inside := corresponds.inside
    unfold CompileContext.next
    split <;> omega
  rw [advance_run, advance_run]
  change Outcomes _ _ _ _ _ (.ok ((), (CompileState.withTree
    { state with position := twins.second.next state.position } other)))
  rw [next]
  exact .accepted (corresponds.moved moves.1 moves.2.1) (Nat.le_refl _) moves.2.2

instance : Matches twins least advance advance where
  alike _ _ := Alike.advance.weaken fun _ _ _ _ _ => rfl

instance (code : ErrorCode) : Matches twins least (fail code : Compile α) (fail code) := by
  unfold fail
  infer_instance

/-- Errors at the tokens at hand. -/
theorem Alike.failed
    {code : ErrorCode}
    {post : CompileState → γ → δ → Prop} :
    Alike twins least state other post (fail code) (fail code) := by
  unfold fail
  exact .yielding fun _ _ common _ => .failAt common.places

/-- After an error at the token at hand nothing follows. -/
theorem Alike.failing
    {code : ErrorCode}
    {post : CompileState → γ → δ → Prop}
    {next : α → Compile γ}
    {after : β → Compile δ} :
    Alike twins least state other post (fail code >>= next) (fail code >>= after) :=
  Alike.bind (M := fun _ _ _ => False) .failed fun _ _ _ _ _ never => never.elim

instance (code : ErrorCode) (next after : α → Compile β) :
    Matches twins least (fail code >>= next) (fail code >>= after) where
  alike _ _ := .failing

/-! ## Spans -/

instance : Yields twins 1 previousSpan previousSpan (fun common : Stretch twins => common.left)
    (fun common => common.right) where
  alike state _ := .withTwin fun corresponds => by
    obtain ⟨position, tree, scope⟩ := state
    cases position with
    | zero => exact absurd corresponds.least (Nat.not_succ_le_zero 0)
    | succ position =>
        unfold previousSpan
        have inside : position < twins.first.tokens.size := Nat.lt_of_succ_lt corresponds.inside
        exact .reading rfl rfl (.reading rfl rfl (.pure ⟨.of (twins.spans_token inside), rfl, rfl⟩))

instance (start : Stretch twins) :
    Yields twins 1 (spanFrom start.left) (spanFrom start.right)
      (fun common : Stretch twins => common.left) (fun common => common.right) where
  alike _ _ := by
    unfold spanFrom
    exact .yielding fun _ _ common _ => .pure ⟨.of (start.spans.merge common.spans), rfl, rfl⟩

/-! ## Consuming tokens -/

instance (symbol : Symbol) : Matches twins least (eat symbol) (eat symbol) := by
  unfold eat
  infer_instance

instance (symbols : List Symbol) : Matches twins least (eatAny? symbols) (eatAny? symbols) := by
  unfold eatAny?
  refine Matches.andThen fun found => ?_
  split <;> infer_instance

instance (symbol : Symbol) (code : ErrorCode) :
    Matches twins least (expect symbol code) (expect symbol code) := by
  unfold expect
  infer_instance

instance : Matches twins least expectSemicolon expectSemicolon := by
  unfold expectSemicolon
  infer_instance

/-- The name at hand is the same, at corresponding spans, and has been consumed. -/
def Named (twins : Twins) (after : CompileState) (name other : String × Span) : Prop :=
  (∃ common : String × Stretch twins, name = (common.1, common.2.left) ∧
      other = (common.1, common.2.right)) ∧
    0 < after.position

/-- An identifier. -/
theorem Alike.expectIdentifier (code : ErrorCode) :
    Alike twins least state other (Named twins) (Compile.expectIdentifier code)
      (Compile.expectIdentifier code) := by
  unfold Compile.expectIdentifier
  refine .yielding fun between tree common _ => ?_
  dsimp only
  split
  · refine Alike.advance.bind fun _ _ _ _ _ consumed => ?_
    exact .pure ⟨⟨(common.text, common.place), rfl, rfl⟩, consumed⟩
  · exact .failed

/-- A name that is being declared. -/
theorem Alike.expectName (code : ErrorCode) :
    Alike twins least state other (Named twins) (Compile.expectName code)
      (Compile.expectName code) := by
  unfold Compile.expectName
  refine .yielding fun between tree common _ => ?_
  dsimp only
  split
  · exact .failed
  · split
    · exact .failed
    · exact .expectIdentifier code
  · exact .expectIdentifier code

instance (code : ErrorCode) :
    Yields twins least (expectIdentifier code) (expectIdentifier code)
      (fun common : String × Stretch twins => (common.1, common.2.left))
      (fun common => (common.1, common.2.right)) where
  alike _ _ := (Alike.expectIdentifier code).weaken fun _ _ _ _ named => named.1

instance (code : ErrorCode) :
    Yields twins least (expectName code) (expectName code)
      (fun common : String × Stretch twins => (common.1, common.2.left))
      (fun common => (common.1, common.2.right)) where
  alike _ _ := (Alike.expectName code).weaken fun _ _ _ _ named => named.1

/-! ## Loops over tokens -/

/-- Two turns of a loop both go on or both end. -/
inductive Turn.Pairs
    (holds : CompileState → σ → τ → Prop) (post : CompileState → α → β → Prop)
    (state : CompileState) : Turn σ α → Turn τ β → Prop where
  | again
      {next : σ}
      {other : τ} :
      holds state next other →
      Pairs holds post state (.again next) (.again other)
  | done
      {result : α}
      {other : β} :
      post state result other →
      Pairs holds post state (.done result) (.done other)

/-- What every turn keeps holds of the results of two loops. -/
theorem Alike.loop
    {H : CompileState → σ → τ → Prop}
    {post : CompileState → γ → δ → Prop}
    {step : σ → Compile (Turn σ γ)}
    {twin : τ → Compile (Turn τ δ)}
    {start : σ}
    {start' : τ}
    (holds : H state start start')
    (turns : ∀ state other next next', H state next next' →
      Alike twins least state other (Turn.Pairs H post) (step next) (twin next')) :
    Alike twins least state other post (Compile.loop step start) (Compile.loop twin start') := by
  have within (bound : Nat) (state : CompileState) (other : Tree) (next : σ) (next' : τ)
      (holds : H state next next') :
      Alike twins least state other post (Compile.loopWithin step bound next)
        (Compile.loopWithin twin bound next') := by
    induction bound generalizing state other next next' with
    | zero => exact .failed
    | succ bound inductionHypothesis =>
        unfold Compile.loopWithin
        refine (turns state other next next' holds).bind fun between tree _ _ _ pairs => ?_
        cases pairs with
        | again holds => exact inductionHypothesis _ _ _ _ holds
        | done meets => exact .pure meets
  unfold Compile.loop
  refine .reading rfl rfl ?_
  rw [twins.size_eq]
  exact within _ _ _ _ _ holds

instance (step twin : σ → Compile (Turn σ α)) (start : σ)
    [turns : ∀ state, Matches twins least (step state) (twin state)] :
    Matches twins least (loop step start) (loop twin start) where
  alike state other := Alike.loop (H := fun _ next next' => next' = next) rfl
    fun state other _ next same => by
      subst same
      exact ((turns next).alike state other).weaken fun _ _ turn _ same => by
        subst same
        cases turn with
        | again next => exact .again rfl
        | done result => exact .done rfl

/-- A loop whose turns have equal results. -/
theorem Matches.repeats
    {step twin : σ → Compile (Turn σ α)}
    {start : σ}
    (turns : ∀ state, Matches twins least (step state) (twin state)) :
    Matches twins least (loop step start) (loop twin start) :=
  inferInstance

instance : Matches twins least skipBlock skipBlock := by
  unfold skipBlock
  refine Matches.repeats fun depth => Matches.andThen fun found => ?_
  split <;> infer_instance

instance : Matches twins least parseModifiers parseModifiers := by
  unfold parseModifiers
  refine Matches.repeats fun modifiers => Matches.andThen fun found => ?_
  split <;> infer_instance

instance (ty : Ty) : Matches twins least (arraySuffixes ty) (arraySuffixes ty) := by
  unfold arraySuffixes
  infer_instance

end Compile

/-! ## Trees of the same shape -/

/-- What is read off the shape of a tree is the same in trees of one shape. -/
theorem Tree.same_of_shape
    {α : Type}
    {tree other : Tree}
    (shape : other.shape = tree.shape)
    (read : Tree → α)
    (ofShape : ∀ tree : Tree, read tree.shape = read tree) :
    read other = read tree := by
  rw [← ofShape other, shape, ofShape]

/-- A class has the same name in trees of one shape. -/
theorem Tree.className_of_shape
    {tree other : Tree}
    (shape : other.shape = tree.shape)
    (id : ClassId) :
    (other.classDef id).name = (tree.classDef id).name :=
  Tree.same_of_shape shape (fun tree => (tree.classDef id).name) fun tree => by
    rw [tree.classDef_shape]
    rfl

/-- Two results that look the same are both missing or both there. -/
theorem paired_of_map
    {α β : Type}
    {found other : Option α}
    {look : α → β}
    (same : other.map look = found.map look) :
    found = none ∧ other = none ∨
      ∃ first second, found = some first ∧ other = some second ∧ look second = look first := by
  cases found with
  | none =>
      rw [Option.map_none, Option.map_eq_none_iff] at same
      exact .inl ⟨rfl, same⟩
  | some first =>
      rw [Option.map_some, Option.map_eq_some_iff] at same
      obtain ⟨second, rfl, same⟩ := same
      exact .inr ⟨first, second, rfl, rfl, same⟩

/-- A field is found in both of two trees with the same look, or in none of them. -/
theorem paired_field
    {found other : Option (Nat × ClassId × FieldDef)}
    (same : other.map Tree.fieldShape = found.map Tree.fieldShape) :
    found = none ∧ other = none ∨
      ∃ index owner field field', found = some (index, owner, field) ∧
        other = some (index, owner, field') ∧ field'.visibility = field.visibility ∧
        field'.ty = field.ty := by
  obtain missing | ⟨⟨index, owner, field⟩, ⟨_, _, field'⟩, rfl, rfl, look⟩ := paired_of_map same
  · exact .inl missing
  · simp only [Tree.fieldShape, Prod.mk.injEq] at look
    obtain ⟨rfl, rfl, shape⟩ := look
    exact .inr ⟨_, _, field, field', rfl, rfl, congrArg (·.visibility) shape,
      congrArg (·.ty) shape⟩

namespace CompileState.Twin

variable {twins : Twins} {least : Nat} {state : CompileState} {other : Tree}

/-- Both trees have the same number of expressions. -/
theorem exprs_size (corresponds : state.Twin twins least other) :
    other.exprs.size = state.tree.exprs.size :=
  Tree.same_of_shape corresponds.shape (·.exprs.size) Tree.exprs_size_shape

/-- An expression has the same shape in both trees. -/
theorem expr_shape (corresponds : state.Twin twins least other) (id : ExprId) :
    (other.expr id).shape = (state.tree.expr id).shape := by
  rw [← Tree.expr_shape, ← Tree.expr_shape, corresponds.shape]

/-- Both trees have the same number of statements. -/
theorem stmts_size (corresponds : state.Twin twins least other) :
    other.stmts.size = state.tree.stmts.size :=
  Tree.same_of_shape corresponds.shape (·.stmts.size) Tree.stmts_size_shape

/-- Both trees have the same number of functions. -/
theorem functions_size (corresponds : state.Twin twins least other) :
    other.functions.size = state.tree.functions.size :=
  Tree.same_of_shape corresponds.shape (·.functions.size) fun tree => by simp [Tree.shape]

/-- Both trees have the same number of classes. -/
theorem classes_size (corresponds : state.Twin twins least other) :
    other.classes.size = state.tree.classes.size :=
  Tree.same_of_shape corresponds.shape (·.classes.size) Tree.classes_size_shape

/-- An expression that has been added covers corresponding spans in both trees. -/
theorem exprs
    (corresponds : state.Twin twins least other)
    (id : ExprId)
    (inside : id.index < state.tree.exprs.size) :
    twins.Spans (state.tree.expr id).span (other.expr id).span := by
  have found := Array.getElem?_eq_getElem inside
  have isTwin := Array.getElem?_eq_getElem (corresponds.exprs_size ▸ inside)
  simp only [Tree.expr, Tree.expr?, found, isTwin]
  exact corresponds.placed.exprs id.index _ _ found isTwin

/-- An expression has corresponding places in both trees. -/
theorem places_expr (corresponds : state.Twin twins least other) (id : ExprId) :
    twins.Places (state.tree.expr id).span (other.expr id).span := by
  by_cases inside : id.index < state.tree.exprs.size
  · exact .inr (corresponds.exprs id inside)
  · have missing : state.tree.expr? id = none := Array.getElem?_eq_none (Nat.le_of_not_lt inside)
    have otherMissing : other.expr? id = none :=
      Array.getElem?_eq_none (corresponds.exprs_size ▸ Nat.le_of_not_lt inside)
    exact .inl ⟨by simp [Tree.expr, missing]; rfl, by simp [Tree.expr, otherMissing]; rfl⟩

/-- A function has corresponding places in both trees. -/
theorem places_function (corresponds : state.Twin twins least other) (id : FuncId) :
    twins.Places (state.tree.function id).span (other.function id).span := by
  by_cases inside : id.index < state.tree.functions.size
  · have found := Array.getElem?_eq_getElem inside
    have isTwin := Array.getElem?_eq_getElem (corresponds.functions_size ▸ inside)
    simp only [Tree.function, Tree.function?, found, isTwin]
    exact corresponds.placed.functions id.index _ _ found isTwin
  · have missing : state.tree.function? id = none :=
      Array.getElem?_eq_none (Nat.le_of_not_lt inside)
    have otherMissing : other.function? id = none :=
      Array.getElem?_eq_none (corresponds.functions_size ▸ Nat.le_of_not_lt inside)
    exact .inl ⟨by simp [Tree.function, missing]; rfl, by simp [Tree.function, otherMissing]; rfl⟩

/-- A function differs in its place only. -/
theorem function_eq (corresponds : state.Twin twins least other) (id : FuncId) :
    ∃ (function : FunctionDef) (place : Compile.Place twins),
      state.tree.function id = { function with span := place.left } ∧
        other.function id = { function with span := place.right } := by
  refine ⟨state.tree.function id, ⟨_, _, corresponds.places_function id⟩, rfl, ?_⟩
  have shape : (other.function id).shape = (state.tree.function id).shape := by
    rw [← Tree.function_shape, ← Tree.function_shape, corresponds.shape]
  simp only [FunctionDef.shape, FunctionDef.mk.injEq, and_true] at shape
  simp only [← shape]

/-- Both trees are replaced. -/
theorem replaced
    {tree next : Tree}
    (corresponds : state.Twin twins least other)
    (shape : next.shape = tree.shape)
    (placed : twins.Placed tree next) :
    (state.withTree tree).Twin twins least next :=
  ⟨shape, placed, corresponds.least, corresponds.inside⟩

/-- An expression is added to both trees. -/
theorem addExpr
    (node next : Expr)
    (corresponds : state.Twin twins least other)
    (shape : next.shape = node.shape)
    (spans : twins.Spans node.span next.span) :
    (state.withTree (state.tree.addExpr node).2).Twin twins least (other.addExpr next).2 := by
  refine corresponds.replaced ?_
    { corresponds.placed with exprs := corresponds.placed.exprs.push corresponds.exprs_size spans }
  have shapes := corresponds.shape
  simp only [Tree.shape, Tree.mk.injEq] at shapes
  simp [Tree.addExpr, Tree.shape, shapes, shape]

/-- A statement is added to both trees. -/
theorem addStmt
    {node next : Stmt}
    (corresponds : state.Twin twins least other)
    (shape : next.shape = node.shape)
    (places : twins.Places node.span next.span) :
    (state.withTree (state.tree.addStmt node).2).Twin twins least (other.addStmt next).2 := by
  refine corresponds.replaced ?_
    { corresponds.placed with stmts := corresponds.placed.stmts.push corresponds.stmts_size places }
  have shapes := corresponds.shape
  simp only [Tree.shape, Tree.mk.injEq] at shapes
  simp [Tree.addStmt, Tree.shape, shapes, shape]

end CompileState.Twin

namespace Compile

variable {α β γ δ σ τ : Type} {twins : Twins} {least : Nat} {state : CompileState} {other : Tree}

/-- Both compilations take up trees of one shape that lose no expression. -/
theorem Alike.setTree
    {tree next : Tree}
    (shape : next.shape = tree.shape)
    (leads : state.tree.exprs.size ≤ tree.exprs.size)
    (placed : twins.Placed tree next) :
    Alike twins least state other (fun _ _ _ => True) (Compile.setTree tree)
      (Compile.setTree next) :=
  fun corresponds => .accepted (corresponds.replaced shape placed) leads trivial

/-- An expression that both compilations have added. -/
def Issues (after : CompileState) (id other : ExprId) : Prop :=
  other = id ∧ after.Issued id

/-- An expression is added over corresponding spans. -/
theorem Alike.addExpr
    {kind : ExprKind}
    {ty : Ty}
    {left right : Span}
    (spans : twins.Spans left right) :
    Alike twins least state other Issues (Compile.addExpr kind ty left)
      (Compile.addExpr kind ty right) := by
  intro corresponds
  have added : state.Leads (state.withTree (state.tree.addExpr ⟨kind, ty, left⟩).2) :=
    Nat.le_of_lt (by simp [CompileState.withTree, Tree.addExpr])
  have issued :
      (state.withTree (state.tree.addExpr ⟨kind, ty, left⟩).2).Issued
        (state.tree.addExpr ⟨kind, ty, left⟩).1 := by
    simp only [CompileState.Issued, CompileState.withTree, Tree.addExpr, Array.size_push]
    exact Nat.lt_succ_of_le (Id.index_ofIndex_le _)
  have next := corresponds.addExpr ⟨kind, ty, left⟩ ⟨kind, ty, right⟩ rfl spans
  refine .accepted next added ⟨?_, issued⟩
  exact congrArg Id.ofIndex corresponds.exprs_size

/-- A statement is added to both trees. -/
theorem Matches.addStmt
    {kind other : StmtKind}
    (shape : other.shape = kind.shape)
    (place : Place twins) :
    Matches twins least (Compile.addStmt kind place.left) (Compile.addStmt other place.right) where
  alike state tree corresponds := by
    have added : state.Leads (state.withTree (state.tree.addStmt ⟨kind, place.left⟩).2) :=
      Nat.le_refl _
    have next := corresponds.addStmt
      (show Stmt.shape ⟨other, place.right⟩ = Stmt.shape ⟨kind, place.left⟩ by
        simp only [Stmt.shape, shape])
      place.places
    exact .accepted next added (congrArg Id.ofIndex corresponds.stmts_size)

instance (kind : StmtKind) (place : Place twins) :
    Matches twins least (addStmt kind place.left) (addStmt kind place.right) :=
  .addStmt rfl place

instance (change : Scope → Scope) :
    Matches twins least (modifyScope change) (modifyScope change) where
  alike state other corresponds :=
    have changed : CompileState.Twin twins least
        { state with scope := change state.scope } other :=
      ⟨corresponds.shape, corresponds.placed, corresponds.least, corresponds.inside⟩
    .accepted changed (Nat.le_refl _) rfl

/-! ## Reading the tree -/

/-- Steps over the trees, which have the same shape. -/
theorem Alike.onTree
    {post : CompileState → γ → δ → Prop}
    {next : Tree → Compile γ}
    {after : Tree → Compile δ}
    (rest : ∀ tree twin : Tree, twin.shape = tree.shape →
      Alike twins least state other post (next tree) (after twin)) :
    Alike twins least state other post (tree >>= next) (tree >>= after) :=
  .withTwin fun corresponds => .reading rfl rfl (rest _ _ corresponds.shape)

/-- Steps over the states, which differ in their trees only. -/
theorem Alike.onState
    {post : CompileState → γ → δ → Prop}
    {next : CompileState → Compile γ}
    {after : CompileState → Compile δ}
    (rest : ∀ position scope (tree twin : Tree), twin.shape = tree.shape → least ≤ position →
      position < twins.first.tokens.size →
      Alike twins least state other post (next ⟨position, tree, scope⟩)
        (after ⟨position, twin, scope⟩)) :
    Alike twins least state other post (get >>= next) (get >>= after) :=
  .withTwin fun corresponds => .reading rfl rfl
    (rest _ _ _ _ corresponds.shape corresponds.least corresponds.inside)

/-- Steps with equal results over the trees, which have the same shape. -/
theorem Matches.onTree
    {next after : Tree → Compile α}
    (rest : ∀ tree other : Tree, other.shape = tree.shape →
      Matches twins least (next tree) (after other)) :
    Matches twins least (tree >>= next) (tree >>= after) where
  alike state other := .withTwin fun corresponds =>
    .reading rfl rfl ((rest state.tree other corresponds.shape).alike state other)

/-- Steps with equal results over the states, which differ in their trees only. -/
theorem Matches.onState
    {next after : CompileState → Compile α}
    (rest : ∀ position scope (tree other : Tree), other.shape = tree.shape → least ≤ position →
      position < twins.first.tokens.size →
      Matches twins least (next ⟨position, tree, scope⟩) (after ⟨position, other, scope⟩)) :
    Matches twins least (get >>= next) (get >>= after) where
  alike state other := .onState fun position scope tree twin shape reached inside =>
    (rest position scope tree twin shape reached inside).alike state other

instance (id : ExprId) : Matches twins least (typeOf id) (typeOf id) where
  alike _ _ := .withTwin fun corresponds =>
    .reading rfl rfl (.pure (congrArg (·.ty) (corresponds.expr_shape id)))

instance (id : ExprId) : Yields twins least (spanOf id) (spanOf id)
    (fun common : Place twins => common.left) (fun common => common.right) where
  alike _ _ := .withTwin fun corresponds =>
    .reading rfl rfl (.pure ⟨⟨_, _, corresponds.places_expr id⟩, rfl, rfl⟩)

/-- The span of an expression that has been added. -/
theorem Alike.atExpr
    {post : CompileState → γ → δ → Prop}
    {id : ExprId}
    {next : Span → Compile γ}
    {after : Span → Compile δ}
    (issued : state.Issued id)
    (rest : ∀ common : Stretch twins,
      Alike twins least state other post (next common.left) (after common.right)) :
    Alike twins least state other post (spanOf id >>= next) (spanOf id >>= after) :=
  .withTwin fun corresponds => .reading rfl rfl (rest (.of (corresponds.exprs id issued)))

instance (id : ExprId) (code : ErrorCode) :
    Matches twins least (constantValue id code) (constantValue id code) := by
  unfold constantValue
  refine .yielding fun place => .onTree fun tree other shape => ?_
  rw [Tree.same_of_shape shape (·.constant? id) fun tree => tree.constant?_shape id]
  infer_instance

instance (id : ExprId) (target : Ty) :
    Matches twins least (checkAssignable id target) (checkAssignable id target) := by
  unfold checkAssignable
  refine .onTree fun tree other shape => .andThen fun ty => ?_
  rw [Tree.same_of_shape shape (·.isAssignable ty target) fun tree =>
    tree.isAssignable_shape ty target]
  infer_instance

instance (ty : Ty) : Matches twins least (classOf? ty) (classOf? ty) := by
  unfold classOf?
  cases ty with
  | object name =>
      refine .onTree fun tree other shape => ?_
      rw [Tree.same_of_shape shape (·.classNamed? name) fun tree => tree.classNamed?_shape name]
      infer_instance
  | _ => exact .pure none

instance (declaring : ClassId) (visibility : Visibility) (place : Place twins) :
    Matches twins least (checkAccess declaring visibility place.left)
      (checkAccess declaring visibility place.right) where
  alike _ _ := by
    unfold checkAccess
    refine .onState fun position scope tree twin shape _ _ => ?_
    have same := Tree.same_of_shape shape (·.admits scope.owner declaring visibility) fun tree =>
      tree.admits_shape scope.owner declaring visibility
    dsimp only
    rw [same]
    exact .matching

/-- To import a class adds classes that are no part of the text. -/
theorem importClass_spans
    {registry : Registry}
    {bound : Nat}
    {tree after : Tree}
    {name : String}
    {id : ClassId}
    (imported : importClass registry bound tree name = some (id, after)) :
    ∃ added : Array ClassDef,
      after.classes = tree.classes ++ added ∧ ∀ entry ∈ added, entry.span = .none := by
  induction bound generalizing name id after with
  | zero => cases imported
  | succ bound inductionHypothesis =>
      unfold importClass at imported
      split at imported
      · cases imported
        exact ⟨#[], by simp, by simp⟩
      · split at imported
        · cases imported
        · next host _ =>
          split at imported
          · cases imported
            exact ⟨#[hostDefinition host none], Array.push_eq_append, by simp [hostDefinition]⟩
          · obtain ⟨⟨above, between⟩, importedParent, added⟩ :=
              Option.map_eq_some_iff.mp imported
            cases added
            obtain ⟨ancestors, isBetween, places⟩ := inductionHypothesis importedParent
            refine ⟨ancestors.push (hostDefinition host (some above)), ?_, ?_⟩
            · rw [Array.push_eq_append, isBetween, Array.append_assoc, ← Array.push_eq_append]
            · rintro entry isAdded
              obtain isAbove | rfl := Array.mem_push.mp isAdded
              · exact places entry isAbove
              · rfl

instance (name : String) : Matches twins least (resolveClass? name) (resolveClass? name) where
  alike state other := .withTwin fun corresponds => by
    unfold resolveClass?
    refine .reading rfl rfl (.reading rfl rfl ?_)
    simp only [Twins.registry_first, Twins.registry_second, CompileState.tree_withTree]
    have imports :=
      state.tree.importClass_shape twins.registry (twins.registry.classes.length + 1) name
    rw [← corresponds.shape, Tree.importClass_shape] at imports
    obtain ⟨isFirst, isSecond⟩ | ⟨first, second, isFirst, isSecond, same⟩ := paired_of_map imports
    · rw [isFirst, isSecond]
      exact .pure rfl
    · obtain ⟨id, tree⟩ := first
      obtain ⟨id', next⟩ := second
      obtain ⟨rfl, shape⟩ := Prod.mk.inj same
      rw [isFirst, isSecond]
      obtain ⟨added, classes, places⟩ := importClass_spans isFirst
      obtain ⟨others, otherClasses, otherPlaces⟩ := importClass_spans isSecond
      have placed : twins.Placed tree next := by
        rw [importClass_same isFirst, importClass_same isSecond, classes, otherClasses]
        exact { corresponds.placed with
          classes := corresponds.placed.classes.append corresponds.classes_size
            fun last isLast twin isTwin =>
              .inl ⟨places last isLast, otherPlaces twin isTwin⟩ }
      have exprs : tree.exprs = state.tree.exprs := by rw [importClass_same isFirst]
      exact (Alike.setTree shape (Nat.le_of_eq (congrArg Array.size exprs.symm)) placed).bind
        fun _ _ _ _ _ _ => .pure rfl

instance : Matches twins least atType atType := by
  unfold atType
  refine .yielding fun common => ?_
  dsimp only
  split <;> infer_instance

instance : Matches twins least parseType parseType := by
  unfold parseType
  refine .yielding fun common => ?_
  dsimp only
  split
  · infer_instance
  · refine .yielding fun place => .andThen fun name => .andThen fun found => .andThen fun id => ?_
    refine .onTree fun tree other shape => ?_
    rw [Tree.className_of_shape shape]
    infer_instance
  · infer_instance

end Compile

end BotScript
