import BotScript.Compile.Program
import BotScript.Snapshot.Restore

namespace BotScript

/-!
# The shape of a tree

The shape of a tree is what remains when the places of its parts are forgotten.
Whatever the compiler decides from a tree that is being built, and whatever a
snapshot is checked against, is read off its shape.
-/

/-! ## Forgetting places -/

/-- An expression without its place. -/
def Expr.shape (node : Expr) : Expr :=
  { node with span := .none }

/-- A catch clause without its place. -/
def CatchClause.shape (clause : CatchClause) : CatchClause :=
  { clause with span := .none }

/-- The form of a statement without the places of its clauses. -/
def StmtKind.shape : StmtKind → StmtKind
  | .guarded body clauses final => .guarded body (clauses.map CatchClause.shape) final
  | kind => kind

/-- A statement without its place. -/
def Stmt.shape (node : Stmt) : Stmt :=
  ⟨node.kind.shape, .none⟩

/-- A function without its place. -/
def FunctionDef.shape (function : FunctionDef) : FunctionDef :=
  { function with span := .none }

/-- A field without its place. -/
def FieldDef.shape (field : FieldDef) : FieldDef :=
  { field with span := .none }

/-- A class without its place and those of its fields. -/
def ClassDef.shape (entry : ClassDef) : ClassDef :=
  { entry with
    fields := entry.fields.map FieldDef.shape
    statics := entry.statics.map FieldDef.shape
    span := .none }

/-- A tree without the places of its parts. -/
def Tree.shape (tree : Tree) : Tree where
  exprs := tree.exprs.map Expr.shape
  stmts := tree.stmts.map Stmt.shape
  functions := tree.functions.map FunctionDef.shape
  classes := tree.classes.map ClassDef.shape
  methodKeys := tree.methodKeys

namespace StmtKind

/-- The shape of a statement has the same expressions. -/
@[simp]
theorem childExprs_shape (kind : StmtKind) : kind.shape.childExprs = kind.childExprs := by
  cases kind with
  | guarded body clauses final => simp [shape, childExprs, CatchClause.shape, Function.comp_def]
  | _ => rfl

/-- The shape of a statement has the same statements in it. -/
@[simp]
theorem childStmts_shape (kind : StmtKind) : kind.shape.childStmts = kind.childStmts := by
  cases kind with
  | guarded body clauses final => simp [shape, childStmts, CatchClause.shape, Function.comp_def]
  | _ => rfl

/-- The frames of a statement have as many steps as those of its shape. -/
@[simp]
theorem lastState_shape (kind : StmtKind) : kind.shape.lastState = kind.lastState := by
  cases kind <;> rfl

end StmtKind

namespace Tree

variable (tree : Tree)

/-! ## Parts of a shape -/

@[simp]
theorem expr?_shape (id : ExprId) : tree.shape.expr? id = (tree.expr? id).map Expr.shape := by
  simp [expr?, shape]

@[simp]
theorem stmt?_shape (id : StmtId) : tree.shape.stmt? id = (tree.stmt? id).map Stmt.shape := by
  simp [stmt?, shape]

@[simp]
theorem function?_shape (id : FuncId) :
    tree.shape.function? id = (tree.function? id).map FunctionDef.shape := by
  simp [function?, shape]

@[simp]
theorem class?_shape (id : ClassId) :
    tree.shape.class? id = (tree.class? id).map ClassDef.shape := by
  simp [class?, shape]

@[simp]
theorem expr_shape (id : ExprId) : tree.shape.expr id = (tree.expr id).shape := by
  unfold expr
  rw [expr?_shape]
  cases tree.expr? id <;> rfl

@[simp]
theorem stmt_shape (id : StmtId) : tree.shape.stmt id = (tree.stmt id).shape := by
  unfold stmt
  rw [stmt?_shape]
  cases tree.stmt? id <;> rfl

@[simp]
theorem function_shape (id : FuncId) : tree.shape.function id = (tree.function id).shape := by
  unfold function
  rw [function?_shape]
  cases tree.function? id <;> rfl

@[simp]
theorem classDef_shape (id : ClassId) : tree.shape.classDef id = (tree.classDef id).shape := by
  unfold classDef
  rw [class?_shape]
  cases tree.class? id <;> rfl

/-! ## Classes -/

@[simp]
theorem classNamed?_shape (name : String) :
    tree.shape.classNamed? name = tree.classNamed? name := by
  simp [classNamed?, shape, ClassDef.shape, Function.comp_def]

@[simp]
theorem chainWithin_shape (bound : Nat) (id : ClassId) :
    tree.shape.chainWithin bound id = tree.chainWithin bound id := by
  induction bound generalizing id with
  | zero => rfl
  | succ bound inductionHypothesis =>
      simp only [chainWithin, classDef_shape, ClassDef.shape, inductionHypothesis]

@[simp]
theorem classes_size_shape : tree.shape.classes.size = tree.classes.size := by
  simp [shape]

@[simp]
theorem classChain_shape (id : ClassId) : tree.shape.classChain id = tree.classChain id := by
  simp [classChain]

@[simp]
theorem isSubclassOf_shape (id ancestor : ClassId) :
    tree.shape.isSubclassOf id ancestor = tree.isSubclassOf id ancestor := by
  simp [isSubclassOf]

@[simp]
theorem inheritanceDistance?_shape (id ancestor : ClassId) :
    tree.shape.inheritanceDistance? id ancestor = tree.inheritanceDistance? id ancestor := by
  simp [inheritanceDistance?]

@[simp]
theorem admits_shape (site : Option ClassId) (declaring : ClassId) (visibility : Visibility) :
    tree.shape.admits site declaring visibility = tree.admits site declaring visibility := by
  cases visibility <;> simp [admits]

@[simp]
theorem instanceFields_shape (id : ClassId) :
    tree.shape.instanceFields id =
      (tree.instanceFields id).map fun entry => (entry.1, entry.2.shape) := by
  simp [instanceFields, List.map_flatMap, ClassDef.shape, Function.comp_def]

@[simp]
theorem layout?_shape (id : ClassId) : tree.shape.layout? id = tree.layout? id := by
  unfold layout?
  rw [class?_shape]
  cases tree.class? id <;>
    simp [ClassDef.shape, FieldDef.shape, Function.comp_def]

@[simp]
theorem inheritsItself_shape (id : ClassId) (bound : Nat) (parent : Option ClassId) :
    Compile.inheritsItself tree.shape id bound parent =
      Compile.inheritsItself tree id bound parent := by
  induction bound generalizing parent with
  | zero => cases parent <;> rfl
  | succ bound inductionHypothesis =>
      cases parent with
      | none => rfl
      | some ancestor =>
          simp only [Compile.inheritsItself, classDef_shape, inductionHypothesis]
          rfl

@[simp]
theorem dispatchTable_shape (id : ClassId) :
    Compile.dispatchTable tree.shape id = Compile.dispatchTable tree id := by
  simp [Compile.dispatchTable, Compile.addMethods, ClassDef.shape]

/-- Dispatch tables are built from the shape of a tree. -/
theorem shape_withDispatchTables :
    (Compile.withDispatchTables tree).shape = Compile.withDispatchTables tree.shape := by
  simp only [Compile.withDispatchTables, dispatchTable_shape]
  simp only [shape, mk.injEq, true_and, and_true]
  exact Array.ext (by simp) fun index _ _ => by simp [ClassDef.shape]

@[simp]
theorem shape_hostDefinition (host : HostClass) (parent : Option ClassId) :
    (Compile.hostDefinition host parent).shape = Compile.hostDefinition host parent := by
  simp [Compile.hostDefinition, ClassDef.shape, FieldDef.shape, Function.comp_def]

/-- Host classes are imported into the shape of a tree as into the tree. -/
@[simp]
theorem importClass_shape (registry : Registry) (bound : Nat) (name : String) :
    Compile.importClass registry bound tree.shape name =
      (Compile.importClass registry bound tree name).map fun entry => (entry.1, entry.2.shape) := by
  induction bound generalizing name with
  | zero => rfl
  | succ bound inductionHypothesis =>
      simp only [Compile.importClass, classNamed?_shape, inductionHypothesis]
      cases tree.classNamed? name with
      | some id => rfl
      | none =>
          cases registry.classNamed? name with
          | none => rfl
          | some host =>
              dsimp only
              cases host.parent with
              | none => simp [shape]
              | some parent => simp [shape, Function.comp_def]

/-- A field that has been found, without its places. -/
def fieldShape (found : Nat × ClassId × FieldDef) : Nat × ClassId × FieldDef :=
  (found.1, found.2.1, found.2.2.shape)

@[simp]
theorem instanceField?_shape (id : ClassId) (name : String) :
    Compile.instanceField? tree.shape id name =
      (Compile.instanceField? tree id name).map fieldShape := by
  simp only [Compile.instanceField?, instanceFields_shape, List.zipIdx_map, ← List.map_reverse,
    List.find?_map, Option.map_map]
  rfl

@[simp]
theorem staticField?_shape (name : String) (chain : List ClassId) :
    Compile.staticField? tree.shape name chain =
      (Compile.staticField? tree name chain).map fieldShape := by
  induction chain with
  | nil => rfl
  | cons owner ancestors inductionHypothesis =>
      simp only [Compile.staticField?, classDef_shape, ClassDef.shape, List.zipIdx_map,
        List.find?_map, inductionHypothesis]
      simp only [Function.comp_def, Prod.map_fst, FieldDef.shape]
      cases (tree.classDef owner).statics.zipIdx.find? fun entry => entry.1.name == name <;> rfl

@[simp]
theorem pendingField_shape (initial : Compile.PendingInitial) :
    Compile.pendingField tree.shape initial = (Compile.pendingField tree initial).shape := by
  simp only [Compile.pendingField, classDef_shape, ClassDef.shape,
    ← apply_ite (List.map FieldDef.shape), List.getElem?_map]
  generalize (if initial.isStatic = true then (tree.classDef initial.owner).statics
    else (tree.classDef initial.owner).fields)[initial.index]? = found
  cases found <;> rfl

/-- Whether a class has declared a field is read off its shape. -/
theorem fields_any_shape (id : ClassId) (name : String) :
    (((tree.shape.classDef id).fields ++ (tree.shape.classDef id).statics).any fun field =>
        field.name == name) =
      ((tree.classDef id).fields ++ (tree.classDef id).statics).any fun field =>
        field.name == name := by
  simp [ClassDef.shape, FieldDef.shape, Function.comp_def]

@[simp]
theorem fieldCount_shape (entry : ClassDef) (isStatic : Bool) :
    Compile.fieldCount entry.shape isStatic = Compile.fieldCount entry isStatic := by
  simp [Compile.fieldCount, ClassDef.shape]

/-- A method key has the same slot in the shape of a tree. -/
theorem internMethodKey_shape (key : String) :
    tree.shape.internMethodKey key =
      ((tree.internMethodKey key).1, (tree.internMethodKey key).2.shape) := by
  unfold internMethodKey
  simp only [shape]
  cases tree.methodKeys.findIdx? (· == key) <;> rfl

/-! ## Types -/

@[simp]
theorem classCost?_shape (source target : String) :
    tree.shape.classCost? source target = tree.classCost? source target := by
  simp [classCost?]

@[simp]
theorem conversionCost?_shape (source target : Ty) :
    tree.shape.conversionCost? source target = tree.conversionCost? source target := by
  simp [conversionCost?]

@[simp]
theorem isAssignable_shape (source target : Ty) :
    tree.shape.isAssignable source target = tree.isAssignable source target := by
  simp [isAssignable]

@[simp]
theorem commonType?_shape (left right : Ty) :
    tree.shape.commonType? left right = tree.commonType? left right := by
  simp [commonType?]

/-! ## Functions and methods -/

@[simp]
theorem functionsNamed_shape (name : String) :
    tree.shape.functionsNamed name = tree.functionsNamed name := by
  simp only [functionsNamed, shape, Array.size_map, Array.getElem?_map]
  congr 1
  funext index
  cases tree.functions[index]? <;> rfl

/-- Whether a function with an owner and a key is declared is read off the shape of a tree. -/
theorem functions_any_shape (owner : Option ClassId) (key : String) :
    (tree.shape.functions.any fun other => other.owner == owner && other.signatureKey == key) =
      tree.functions.any fun other => other.owner == owner && other.signatureKey == key := by
  simp only [shape, Array.any_map]
  rfl

@[simp]
theorem argumentsCost?_shape (arguments : List Ty) (params : List Param) :
    tree.shape.argumentsCost? arguments params = tree.argumentsCost? arguments params := by
  induction arguments generalizing params with
  | nil => cases params <;> rfl
  | cons argument arguments inductionHypothesis =>
      cases params with
      | nil => rfl
      | cons param params =>
          simp only [argumentsCost?, conversionCost?_shape, inductionHypothesis]

@[simp]
theorem candidateCost_shape
    (registry : Registry)
    (arguments : List Ty)
    (target : MethodImpl) :
    tree.shape.candidateCost registry arguments target =
      tree.candidateCost registry arguments target := by
  cases target with
  | native id => rfl
  | user id =>
      simp only [candidateCost, function_shape, argumentsCost?_shape]
      rfl

@[simp]
theorem resolveOverload_shape
    (registry : Registry)
    (candidates : List MethodImpl)
    (arguments : List Ty) :
    tree.shape.resolveOverload registry candidates arguments =
      tree.resolveOverload registry candidates arguments := by
  have same :
      tree.shape.candidateCost registry arguments = tree.candidateCost registry arguments :=
    funext fun target => tree.candidateCost_shape registry arguments target
  simp only [resolveOverload, same]

@[simp]
theorem methodCandidates_shape (id : ClassId) (name : String) :
    tree.shape.methodCandidates id name = tree.methodCandidates id name := by
  simp [methodCandidates, ClassDef.shape]

@[simp]
theorem constructors_shape (id : ClassId) : tree.shape.constructors id = tree.constructors id := by
  simp [constructors, ClassDef.shape]

/-! ## Constants and statements that leave their function -/

@[simp]
theorem constantWithin_shape (bound : Nat) (id : ExprId) :
    tree.shape.constantWithin bound id = tree.constantWithin bound id := by
  induction bound generalizing id with
  | zero => rfl
  | succ bound inductionHypothesis =>
      have same : tree.shape.constantWithin bound = tree.constantWithin bound :=
        funext inductionHypothesis
      have parts :
          tree.shape.constantAs (tree.constantWithin bound) =
            tree.constantAs (tree.constantWithin bound) := by
        funext part ty
        simp only [constantAs, expr_shape]
        rfl
      simp only [constantWithin, constantOf, same, parts, expr_shape, Expr.shape]

@[simp]
theorem exprs_size_shape : tree.shape.exprs.size = tree.exprs.size := by
  simp [shape]

@[simp]
theorem constant?_shape (id : ExprId) : tree.shape.constant? id = tree.constant? id := by
  simp [constant?]

@[simp]
theorem leavesWithin_shape (bound : Nat) (id : StmtId) :
    tree.shape.leavesWithin bound id = tree.leavesWithin bound id := by
  induction bound generalizing id with
  | zero => rfl
  | succ bound inductionHypothesis =>
      simp only [leavesWithin, stmt_shape, Stmt.shape]
      cases (tree.stmt id).kind with
      | guarded body clauses final =>
          simp [StmtKind.shape, CatchClause.shape, inductionHypothesis, Function.comp_def]
      | branch condition whenTrue whenFalse =>
          cases whenFalse with
          | none => rfl
          | some whenFalse => simp [StmtKind.shape, inductionHypothesis]
      | _ => simp [StmtKind.shape, inductionHypothesis]

@[simp]
theorem stmts_size_shape : tree.shape.stmts.size = tree.stmts.size := by
  simp [shape]

@[simp]
theorem alwaysLeaves_shape (id : StmtId) : tree.shape.alwaysLeaves id = tree.alwaysLeaves id := by
  simp [alwaysLeaves]

/-! ## Frames of a snapshot -/

@[simp]
theorem lastState?_shape (node : Node) : node.lastState? tree.shape = node.lastState? tree := by
  cases node <;> simp [Node.lastState?, Stmt.shape, Expr.shape, Function.comp_def]

@[simp]
theorem canPush_shape (parent child : Node) :
    tree.shape.canPush parent child = tree.canPush parent child := by
  cases parent with
  | start entry =>
      cases child <;> simp [canPush, shape, ClassDef.shape, FieldDef.shape, Function.comp_def]
  | function function =>
      cases child <;> simp [canPush, FunctionDef.shape, Function.comp_def]
  | fieldSetup owner =>
      cases child <;> simp [canPush, FieldDef.shape, Function.comp_def]
  | statement parent =>
      cases child <;> simp [canPush, Stmt.shape, Function.comp_def]
  | expression parent demand =>
      simp only [canPush, expr?_shape]
      cases tree.expr? parent <;> rfl

end Tree

/-! ## Snapshots -/

namespace Restored.Bounds

variable (bounds : Bounds) (tree : Tree)

@[simp]
theorem heap_shape (snapshot : Snapshot) :
    bounds.heap tree.shape snapshot = bounds.heap tree snapshot := by
  have same : bounds.instance? tree.shape = bounds.instance? tree := by
    funext record
    simp [instance?]
  simp only [heap, same]

@[simp]
theorem statics_shape (saved : List (List UInt32)) :
    bounds.statics tree.shape saved = bounds.statics tree saved := by
  simp [statics, Tree.shape, ClassDef.shape, Function.comp_def]

@[simp]
theorem activation_shape (record : ActivationRecord) :
    bounds.activation tree.shape record = bounds.activation tree record := by
  cases named : record.function with
  | none => simp only [activation, named]
  | some id =>
      simp only [activation, named, Tree.function?_shape]
      cases tree.function? id <;> rfl

@[simp]
theorem frames_treeShape
    (activations : Nat)
    (parent : Option Node)
    (records : List FrameRecord) :
    bounds.frames tree.shape activations parent records =
      bounds.frames tree activations parent records := by
  induction records generalizing parent with
  | nil => rfl
  | cons record rest inductionHypothesis =>
      simp only [frames, frame, Tree.canPush_shape, Tree.lastState?_shape, inductionHypothesis]

end Restored.Bounds

/-- A snapshot is checked against the shape of a tree. -/
theorem Machine.restore_shape
    (tree : Tree)
    (snapshot : Snapshot)
    (signature : UInt32)
    (host : Host) :
    Machine.restore tree.shape snapshot signature host =
      Machine.restore tree snapshot signature host := by
  have activations (bounds : Restored.Bounds) :
      bounds.activation tree.shape = bounds.activation tree :=
    funext (bounds.activation_shape tree)
  simp only [Machine.restore, Restored.Bounds.heap_shape, Restored.Bounds.statics_shape,
    activations, Restored.Bounds.frames_treeShape, Tree.function?_shape, Option.map_map,
    Function.comp_def, FunctionDef.shape]

end BotScript
