import BotScript.Proofs.TreeGrowth

namespace BotScript

/-!
# Formulas and how they are written

A formula is an expression of literals and variables with prefix, binary,
logical and conditional operators, before it is written down.  It is written
with parentheses only where its place asks for a tighter form: operands of a
level of binary operators join from the left, so that a right operand of the
same level is enclosed, prefix operators bind tighter than all of these, and a
conditional binds looser than all of them while its branches stand open.
-/

/-- What the compiler sees of a token besides its place. -/
structure Lexeme where
  kind : TokenKind
  text : String
  deriving Repr, DecidableEq

/-- The keyword or operator as it is written. -/
def Lexeme.ofSymbol (symbol : Symbol) : Lexeme :=
  ⟨.symbol symbol, symbol.text⟩

/-- What the compiler sees of a token besides its place. -/
def Token.lexeme (token : Token) : Lexeme :=
  ⟨token.kind, token.text⟩

/-- A token of a keyword or an operator is that symbol. -/
theorem Token.symbol?_of_lexeme
    {token : Token}
    {symbol : Symbol}
    (written : token.lexeme = .ofSymbol symbol) :
    token.symbol? = some symbol := by
  have kind : token.kind = .symbol symbol := congrArg Lexeme.kind written
  rw [Token.symbol?, kind]

/-- The value and the type of a literal that is written as one token. -/
def Lexeme.literal? (lexeme : Lexeme) : Option (LiteralValue × Ty) :=
  match lexeme.kind with
  | .number =>
      match Literal.number lexeme.text.toList with
      | .ok (.int value) => some (.int value, Compile.integerType value)
      | .ok (.float value) => some (.float value.toSingle, .float)
      | .error _ => none
  | .string => (Literal.string lexeme.text.toList).toOption.map fun value => (.str value, .string)
  | .character =>
      (Literal.character lexeme.text.toList).toOption.map fun value =>
        (.int (Int64.ofNat value.toNat), .char)
  | .constant value => some (.int value, Compile.integerType value)
  | .symbol .trueKw => some (.bool true, .boolean)
  | .symbol .falseKw => some (.bool false, .boolean)
  | .symbol .nullKw => some (.null, .null)
  | .symbol .nanKw => some (.nan, .int)
  | .identifier | .symbol _ | .endOfText => none

/-- The node and the type of a leaf: a literal, or a variable other than the receiver. -/
def Scope.leaf? (scope : Scope) (lexeme : Lexeme) : Option (ExprKind × Ty) :=
  match lexeme.kind with
  | .identifier =>
      if lexeme.text = "this" then none
      else (scope.lookup? lexeme.text).map fun (slot, ty) => (.localVar slot, ty)
  | _ => lexeme.literal?.map fun (value, ty) => (.literal value, ty)

/-- An expression of literals and variables with operators. -/
inductive Formula where
  | leaf (lexeme : Lexeme)
  | prefixed (symbol : Symbol) (operand : Formula)
  | joined (symbol : Symbol) (left right : Formula)
  | chosen (condition whenTrue whenFalse : Formula)
  deriving Repr, DecidableEq

namespace Formula

/-! ## Writing -/

/-- The level of prefix operators, behind those of the binary operators. -/
def prefixLevel : Nat :=
  Compile.levels.length + 1

/-- The level of leaves and of what stands in parentheses. -/
def leafLevel : Nat :=
  prefixLevel + 1

/-- The level of a binary operator; the loosest one is the first. -/
def levelOf (symbol : Symbol) : Nat :=
  Compile.levels.findIdx (·.contains symbol) + 1

/-- The level of the outermost operator; a conditional is looser than all levels. -/
def level : Formula → Nat
  | .leaf _ => leafLevel
  | .prefixed _ _ => prefixLevel
  | .joined symbol _ _ => levelOf symbol
  | .chosen _ _ _ => 0

/-- What is written at a place that asks for a level, given the level it has. -/
def enclosed (own asked : Nat) (lexemes : List Lexeme) : List Lexeme :=
  if own < asked then .ofSymbol .openPar :: (lexemes ++ [.ofSymbol .closePar]) else lexemes

/-- A formula as it is written where every form may stand. -/
def lexemes : Formula → List Lexeme
  | .leaf lexeme => [lexeme]
  | .prefixed symbol operand =>
      .ofSymbol symbol :: enclosed operand.level prefixLevel operand.lexemes
  | .joined symbol left right =>
      enclosed left.level (levelOf symbol) left.lexemes ++
        .ofSymbol symbol :: enclosed right.level (levelOf symbol + 1) right.lexemes
  | .chosen condition whenTrue whenFalse =>
      enclosed condition.level 1 condition.lexemes ++
        .ofSymbol .question :: (whenTrue.lexemes ++ .ofSymbol .colon :: whenFalse.lexemes)

/-- A formula as it is written at a place that asks for a level. -/
def lexemesAt (formula : Formula) (asked : Nat) : List Lexeme :=
  enclosed formula.level asked formula.lexemes

/-- The number of leaves and operators, which is the number of nodes. -/
def size : Formula → Nat
  | .leaf _ => 1
  | .prefixed _ operand => operand.size + 1
  | .joined _ left right => left.size + right.size + 1
  | .chosen condition whenTrue whenFalse =>
      condition.size + whenTrue.size + whenFalse.size + 1

/-! ## Types -/

/-- The type of a binary or logical operator on operands of two types. -/
def joinedType? (symbol : Symbol) (left right : Ty) : Option Ty :=
  match Compile.logicalOp? symbol with
  | some _ => if left = .boolean ∧ right = .boolean then some .boolean else none
  | none =>
      (Compile.binaryOp? symbol).bind fun op => (binaryTypes? op left right).map (·.2)

/-- The type of a formula, if every operator fits its operands. -/
def type? (tree : Tree) (scope : Scope) : Formula → Option Ty
  | .leaf lexeme => (scope.leaf? lexeme).map (·.2)
  | .prefixed symbol operand =>
      (Compile.unaryOp? symbol).bind fun op =>
        (operand.type? tree scope).bind fun ty => Compile.unaryType? op ty
  | .joined symbol left right =>
      (left.type? tree scope).bind fun leftType =>
        (right.type? tree scope).bind fun rightType => joinedType? symbol leftType rightType
  | .chosen condition whenTrue whenFalse =>
      if condition.type? tree scope = some .boolean then
        (whenTrue.type? tree scope).bind fun trueType =>
          (whenFalse.type? tree scope).bind fun falseType => tree.commonType? trueType falseType
      else none

end Formula

/-! ## Nodes -/

/-- An expression has a form and a type. -/
def Tree.HasNode (tree : Tree) (id : ExprId) (kind : ExprKind) (ty : Ty) : Prop :=
  ∃ place, tree.expr? id = some ⟨kind, ty, place⟩

open Compile in
/--
An expression of a type is the tree of a formula: it has the same shape with the
same operators and leaves, and every operator has the operand type of its operands.
-/
inductive Tree.Shows (tree : Tree) (scope : Scope) : Formula → ExprId → Ty → Prop where
  | leaf {lexeme : Lexeme} {id : ExprId} {kind : ExprKind} {ty : Ty}
      (isLeaf : scope.leaf? lexeme = some (kind, ty))
      (node : tree.HasNode id kind ty) :
      Shows tree scope (.leaf lexeme) id ty
  | prefixed {symbol : Symbol} {op : UnaryOp} {operand : Formula} {id part : ExprId}
      {partType ty : Ty}
      (isOp : unaryOp? symbol = some op)
      (shown : Shows tree scope operand part partType)
      (fits : unaryType? op partType = some ty)
      (node : tree.HasNode id (.unary op part) ty) :
      Shows tree scope (.prefixed symbol operand) id ty
  | logical {symbol : Symbol} {op : LogicalOp} {left right : Formula} {id first second : ExprId}
      (isOp : logicalOp? symbol = some op)
      (shownLeft : Shows tree scope left first .boolean)
      (shownRight : Shows tree scope right second .boolean)
      (node : tree.HasNode id (.logical op first second) .boolean) :
      Shows tree scope (.joined symbol left right) id .boolean
  | binary {symbol : Symbol} {op : BinaryOp} {left right : Formula} {id first second : ExprId}
      {leftType rightType operand ty : Ty}
      (notLogical : logicalOp? symbol = none)
      (isOp : binaryOp? symbol = some op)
      (shownLeft : Shows tree scope left first leftType)
      (shownRight : Shows tree scope right second rightType)
      (fits : binaryTypes? op leftType rightType = some (operand, ty))
      (node : tree.HasNode id (.binary op operand first second) ty) :
      Shows tree scope (.joined symbol left right) id ty
  | chosen {condition whenTrue whenFalse : Formula} {id first second third : ExprId}
      {trueType falseType ty : Ty}
      (shownCondition : Shows tree scope condition first .boolean)
      (shownTrue : Shows tree scope whenTrue second trueType)
      (shownFalse : Shows tree scope whenFalse third falseType)
      (fits : tree.commonType? trueType falseType = some ty)
      (node : tree.HasNode id (.conditional first second third) ty) :
      Shows tree scope (.chosen condition whenTrue whenFalse) id ty

/-! ## Growing by expressions -/

/-- The tree with more expressions. -/
def Tree.withExprs (tree : Tree) (added : Array Expr) : Tree :=
  { tree with exprs := tree.exprs ++ added }

/-- The state behind some tokens that have been made into expressions. -/
def CompileState.read (state : CompileState) (length : Nat) (added : Array Expr) : CompileState :=
  { state with position := state.position + length, tree := state.tree.withExprs added }

namespace CompileState

variable (state : CompileState) (length more : Nat) (added others : Array Expr)

@[simp] theorem read_position : (state.read length added).position = state.position + length :=
  rfl

@[simp] theorem read_scope : (state.read length added).scope = state.scope :=
  rfl

@[simp] theorem read_tree : (state.read length added).tree = state.tree.withExprs added :=
  rfl

@[simp] theorem read_exprs :
    (state.tree.withExprs added).exprs.size = state.tree.exprs.size + added.size := by
  simp [Tree.withExprs]

@[simp] theorem read_read :
    (state.read length added).read more others = state.read (length + more) (added ++ others) := by
  simp [read, Tree.withExprs, Nat.add_assoc]

@[simp] theorem read_zero : state.read 0 #[] = state := by
  simp [read, Tree.withExprs]

end CompileState

namespace Tree

variable {tree : Tree} {scope : Scope} {added : Array Expr}

theorem withExprs_chainWithin (bound : Nat) (id : ClassId) :
    (tree.withExprs added).chainWithin bound id = tree.chainWithin bound id := by
  induction bound generalizing id with
  | zero => rfl
  | succ bound same =>
      unfold chainWithin
      simp only [same]
      rfl

@[simp] theorem withExprs_commonType (left right : Ty) :
    (tree.withExprs added).commonType? left right = tree.commonType? left right := by
  have subclass (id ancestor : ClassId) :
      (tree.withExprs added).isSubclassOf id ancestor = tree.isSubclassOf id ancestor :=
    congrArg (List.contains · ancestor) (withExprs_chainWithin tree.classes.size id)
  unfold commonType?
  simp only [subclass]
  rfl

@[simp] theorem withExprs_withExprs (others : Array Expr) :
    (tree.withExprs added).withExprs others = tree.withExprs (added ++ others) := by
  simp [Tree.withExprs]

@[simp] theorem withExprs_empty : tree.withExprs #[] = tree := by
  simp [Tree.withExprs]

/-- A node stays when expressions are added. -/
theorem HasNode.withExprs
    {id : ExprId}
    {kind : ExprKind}
    {ty : Ty}
    (node : tree.HasNode id kind ty) :
    (tree.withExprs added).HasNode id kind ty := by
  obtain ⟨place, found⟩ := node
  refine ⟨place, ?_⟩
  obtain ⟨inside, -⟩ := Array.getElem?_eq_some_iff.mp found
  unfold Tree.withExprs expr?
  rw [Array.getElem?_append_left inside]
  exact found

/-- The expression added last has the number behind the others. -/
theorem HasNode.last
    (kind : ExprKind)
    (ty : Ty)
    (place : Span)
    (room : tree.exprs.size < UInt32.size) :
    (tree.withExprs #[⟨kind, ty, place⟩]).HasNode (Id.ofIndex tree.exprs.size) kind ty := by
  refine ⟨place, ?_⟩
  unfold expr?
  rw [Id.index_ofIndex room, Tree.withExprs, ← Array.push_eq_append]
  exact Array.getElem?_push_size

namespace Shows

variable {formula : Formula} {id : ExprId} {ty : Ty}

/-- What an expression shows stays when expressions are added. -/
theorem withExprs
    (shown : tree.Shows scope formula id ty) :
    (tree.withExprs added).Shows scope formula id ty := by
  induction shown with
  | leaf isLeaf node => exact .leaf isLeaf node.withExprs
  | prefixed isOp _ fits node operand => exact .prefixed isOp operand fits node.withExprs
  | logical isOp _ _ node left right => exact .logical isOp left right node.withExprs
  | binary notLogical isOp _ _ fits node left right =>
      exact .binary notLogical isOp left right fits node.withExprs
  | chosen _ _ _ fits node condition whenTrue whenFalse =>
      exact .chosen condition whenTrue whenFalse (by simpa using fits) node.withExprs

/-- The root of a formula's tree has the type of the formula. -/
theorem node_ty
    (shown : tree.Shows scope formula id ty) :
    (tree.expr id).ty = ty := by
  have typed : ∃ kind, tree.HasNode id kind ty := by
    cases shown with
    | leaf _ node | prefixed _ _ _ node | logical _ _ _ node | binary _ _ _ _ _ node
    | chosen _ _ _ _ node => exact ⟨_, node⟩
  obtain ⟨kind, place, found⟩ := typed
  rw [Tree.expr, found, Option.getD_some]

end Shows

end Tree

/-- The type of a formula does not depend on the expressions of the tree. -/
@[simp] theorem Formula.type?_withExprs
    {tree : Tree}
    {scope : Scope}
    {added : Array Expr}
    (formula : Formula) :
    formula.type? (tree.withExprs added) scope = formula.type? tree scope := by
  induction formula with
  | leaf lexeme => rfl
  | prefixed symbol operand same => simp only [type?, same]
  | joined symbol left right sameLeft sameRight => simp only [type?, sameLeft, sameRight]
  | chosen condition whenTrue whenFalse sameCondition sameTrue sameFalse =>
      simp only [type?, sameCondition, sameTrue, sameFalse, Tree.withExprs_commonType]

end BotScript
