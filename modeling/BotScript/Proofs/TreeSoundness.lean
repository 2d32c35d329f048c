import BotScript.Proofs.CompilationSteps
import BotScript.Proofs.ConstantValues
import Mathlib.Algebra.Order.BigOperators.Group.List
import Mathlib.Algebra.Order.Group.Nat

namespace BotScript

/-!
# What holds of the trees of programs

Everything that a tree refers to is in it, and parts come before what they are
parts of.  As long as identifiers are exact, calls fit the functions they call,
and variables and fields exist.  All of this is stated for one node, function or
class at a time, so that it is shown when the entry is added and is kept from
then on because the tree only grows.
-/

/-! ## What nodes refer to -/

/-- A function of the tree, or a native that programs may know. -/
def MethodImpl.Within (known : NativeId → Prop) (tree : Tree) : MethodImpl → Prop
  | .user function => function.index < tree.functions.size
  | .native id => known id

/-- What an expression refers to besides its parts is there. -/
def ExprKind.Refers (known : NativeId → Prop) (tree : Tree) : ExprKind → Prop
  | .staticField owner _ => owner.index < tree.classes.size
  | .call function _ => function.index < tree.functions.size
  | .nativeCall native _ => known native
  | .methodCall _ slot target _ =>
      (∀ key ∈ slot, key.index < tree.methodKeys.size) ∧ target.Within known tree
  | .new owner constructor _ =>
      owner.index < tree.classes.size ∧ ∀ target ∈ constructor, target.Within known tree
  | _ => True

/-- The arguments of a call, or the items of an array. -/
def ExprKind.arguments : ExprKind → List ExprId
  | .call _ arguments | .nativeCall _ arguments | .methodCall _ _ _ arguments
  | .new _ _ arguments => arguments
  | .arrayLiteral items => items
  | _ => []

/--
Whether an expression has parts only, and any parts will do: it names no
variable and no member, it lists nothing, and it writes to nothing.
-/
def ExprKind.isPlain : ExprKind → Bool
  | .localVar _ | .field _ _ | .staticField _ _ | .call _ _ | .nativeCall _ _
  | .methodCall _ _ _ _ | .new _ _ _ | .arrayLiteral _ | .index _ _ | .assign _ _ _ _
  | .step _ _ => false
  | _ => true

/-- The number of expressions that a statement evaluates between two statements of its own. -/
def StmtKind.width : StmtKind → Nat
  | .forLoop _ _ _ steps _ => steps.length
  | .guarded _ clauses _ => clauses.length
  | _ => 0

/-- Whether a statement declares no variable and lists no expressions. -/
def StmtKind.isPlain : StmtKind → Bool
  | .declare _ _ _ | .forLoop _ _ _ _ _ | .guarded _ _ _ => false
  | _ => true

/-- The classes of a host have their fields under different names. -/
def Registry.FieldsOnce (registry : Registry) : Prop :=
  ∀ host ∈ registry.classes, (host.fields.map (·.name)).Nodup

/-- The variable that holds the argument for a parameter. -/
def Param.toLocal (param : Param) : LocalDef :=
  ⟨param.name, param.ty⟩

namespace Tree

/-- A function has exactly as many parameters as there are arguments, and each takes its argument. -/
def Accepts (tree : Tree) (function : FuncId) (arguments : List ExprId) : Prop :=
  List.Forall₂
    (fun argument param => tree.isAssignable (tree.expr argument).ty param.ty = true)
    arguments (tree.function function).params

/-- The instances of a class type have a field with an index. -/
def HasField (tree : Tree) (ty : Ty) (index : Nat) : Prop :=
  ∃ name owner, ty = .object name ∧ tree.classNamed? name = some owner ∧
    index < (tree.instanceFields owner).length

/-- A call of a function of the program fits it, and a field is one of its object. -/
def Meets (tree : Tree) : ExprKind → Prop
  | .call function arguments | .methodCall _ _ (.user function) arguments
  | .new _ (some (.user function)) arguments => tree.Accepts function arguments
  | .field object index => tree.HasField (tree.expr object).ty index.toNat
  | _ => True

/-- The class of the values of a type. -/
def ClassOf (tree : Tree) (ty : Ty) (id : ClassId) : Prop :=
  ∃ name, ty = .object name ∧ tree.classNamed? name = some id

/-- A class or one of its ancestors has a method under a slot; constructors are no methods. -/
def HasMethod
    (tree : Tree) (id : ClassId) (slot : Option MethodSlot) (target : MethodImpl) : Prop :=
  ∃ owner ∈ tree.classChain id, ∃ method ∈ (tree.classDef owner).methods,
    method.name ≠ (tree.classDef owner).name ∧ method.slot = slot ∧
      method.implementation = target

/--
What is written to denotes a place, what is indexed is an array, and the method
that is called is one of its object.
-/
def Apt (tree : Tree) : ExprKind → Prop
  | .assign _ _ target _ | .step _ target => (tree.expr target).kind.isPlace = true
  | .index array _ => ∃ element, (tree.expr array).ty = .array element
  | .methodCall object slot target _ =>
      tree.Fits → ∃ id, tree.ClassOf (tree.expr object).ty id ∧ tree.HasMethod id slot target
  | _ => True

/-- An expression reads a variable, itself or in one of its parts. -/
inductive Reads (tree : Tree) : ExprId → LocalSlot → Prop where
  | here {id : ExprId} {node : Expr} {slot : LocalSlot} :
      tree.expr? id = some node → node.kind = .localVar slot → Reads tree id slot
  | within {id child : ExprId} {node : Expr} {slot : LocalSlot} :
      tree.expr? id = some node → child ∈ node.kind.children → Reads tree child slot →
      Reads tree id slot

/-- A statement declares or reads a variable, itself or in one of its parts. -/
inductive Touches (tree : Tree) : StmtId → LocalSlot → Prop where
  | declares {id : StmtId} {node : Stmt} {slot : LocalSlot} {limits : Limits}
      {initial : Option ExprId} :
      tree.stmt? id = some node → node.kind = .declare slot limits initial → Touches tree id slot
  | reads {id : StmtId} {node : Stmt} {value : ExprId} {slot : LocalSlot} :
      tree.stmt? id = some node → value ∈ node.kind.childExprs → tree.Reads value slot →
      Touches tree id slot
  | within {id child : StmtId} {node : Stmt} {slot : LocalSlot} :
      tree.stmt? id = some node → child ∈ node.kind.childStmts → Touches tree child slot →
      Touches tree id slot

/-! ## Soundness of entries -/

variable (context : CompileContext) (known : NativeId → Prop) (own : Nat) (tree : Tree)

/-- No list that is written out in a text with a mark of its end is longer than the text. -/
def Short (length : Nat) : Prop :=
  context.Ended → length ≤ context.tokens.size - 1

/-- An expression at a position. -/
structure ExprSound (index : Nat) (node : Expr) : Prop where
  children : ∀ child ∈ node.kind.children, child.index < index
  refers : node.kind.Refers known tree
  short : Short context node.kind.arguments.length
  meets : tree.Fits → tree.Meets node.kind
  apt : tree.Apt node.kind
  operates : tree.Fits → tree.Operates node.ty node.kind

/-- A statement at a position. -/
structure StmtSound (index : Nat) (kind : StmtKind) : Prop where
  exprs : ∀ id ∈ kind.childExprs, id.index < tree.exprs.size
  children : ∀ child ∈ kind.childStmts, child.index < index
  short : Short context kind.width

/-- An expression that stands on its own, outside all functions. -/
structure StandsAlone (id : ExprId) : Prop where
  inside : id.index < tree.exprs.size
  reads : tree.Fits → ∀ slot, ¬ tree.Reads id slot

/-- A parameter at a position. -/
structure ParamSound (index : Nat) (param : Param) : Prop where
  slot : param.slot = Id.ofIndex index
  ty : param.ty.isVoid = false
  standsAlone : ∀ id ∈ param.defaultValue, tree.StandsAlone id
  defaultType : ∀ id ∈ param.defaultValue, tree.Fits → (tree.expr id).ty = param.ty
  literal : ∀ id ∈ param.defaultValue, tree.Fits → ∃ value, (tree.expr id).kind = .literal value

/-- The body of a function. -/
structure BodySound (function : FunctionDef) (body : StmtId) : Prop where
  inside : body.index < tree.stmts.size
  params : function.params.map Param.toLocal <+: function.locals
  slots : tree.Fits → ∀ slot, tree.Touches body slot → slot.index < function.locals.length

/-- A function with its parameters, of which the last ones may have defaults. -/
structure FunctionSound (function : FunctionDef) : Prop where
  owner : ∀ owner ∈ function.owner, owner.index < tree.classes.size
  params : ∀ index param, function.params[index]? = some param → tree.ParamSound index param
  defaults :
    function.params.Pairwise fun first second =>
      first.defaultValue.isSome → second.defaultValue.isSome
  short : Short context function.params.length
  body : ∀ body ∈ function.body, tree.BodySound function body

/-- A class with its members. -/
structure ClassSound (entry : ClassDef) : Prop where
  names : context.registry.FieldsOnce → (entry.fields.map (·.name)).Nodup
  parent : ∀ parent ∈ entry.parent, parent.index < tree.classes.size
  initials :
    ∀ field ∈ entry.fields ++ entry.statics, ∀ id ∈ field.initial, tree.StandsAlone id
  methods :
    ∀ method ∈ entry.methods, method.implementation.Within known tree ∧
      ∀ slot ∈ method.slot, slot.index < tree.methodKeys.size
  dispatch :
    ∀ row ∈ entry.dispatch,
      row.1.index < tree.methodKeys.size ∧ row.2.index < tree.functions.size

/--
All entries of a tree are sound, and every class has a name of its own.  Behind the
classes of the program itself, a class comes behind its parent.
-/
structure Sound : Prop where
  exprs :
    ∀ (index : Nat) node, tree.exprs[index]? = some node →
      tree.ExprSound context known index node
  stmts :
    ∀ (index : Nat) node, tree.stmts[index]? = some node →
      tree.StmtSound context index node.kind
  functions : ∀ function ∈ tree.functions, tree.FunctionSound context function
  classes : ∀ entry ∈ tree.classes, tree.ClassSound context known entry
  named :
    tree.Fits → ∀ id : ClassId, id.index < tree.classes.size →
      tree.classNamed? (tree.classDef id).name = some id
  imported :
    ∀ (index : Nat) entry, tree.classes[index]? = some entry → own ≤ index →
      ∀ parent ∈ entry.parent, parent.index < index

end Tree

/-! ## What growth keeps -/

section Growth

variable {context : CompileContext} {known : NativeId → Prop} {own : Nat}
  {tree before after : Tree}

namespace Tree

/-- A class that a name finds is in the tree. -/
theorem classNamed?_inside
    {name : String}
    {id : ClassId}
    (named : tree.classNamed? name = some id) :
    id.index < tree.classes.size := by
  unfold classNamed? at named
  obtain ⟨index, found, rfl⟩ := Option.map_eq_some_iff.mp named
  obtain ⟨inside, -⟩ := Array.findIdx?_eq_some_iff_getElem.mp found
  exact Nat.lt_of_le_of_lt (Id.index_ofIndex_le index) inside

/-- A class reaches another one in its chain if and only if that one is in it. -/
theorem inheritanceDistance?_isSome
    {id ancestor : ClassId} :
    (tree.inheritanceDistance? id ancestor).isSome ↔ ancestor ∈ tree.classChain id := by
  simp [inheritanceDistance?, List.findIdx?_isSome]

/-- Classes have a cost of conversion if one of them inherits from the other. -/
theorem classCost?_isSome
    {source target : String} :
    (tree.classCost? source target).isSome ↔
      ∃ first second, tree.classNamed? source = some first ∧
        tree.classNamed? target = some second ∧
          (second ∈ tree.classChain first ∨ first ∈ tree.classChain second) := by
  unfold classCost?
  constructor
  · intro convertible
    split at convertible
    · next first second isFirst isSecond =>
        refine ⟨first, second, isFirst, isSecond, ?_⟩
        split at convertible
        · next levels isDistance =>
            exact .inl (inheritanceDistance?_isSome.mp (isDistance ▸ rfl))
        · rw [Option.isSome_map] at convertible
          exact .inr (inheritanceDistance?_isSome.mp convertible)
    · cases convertible
  · rintro ⟨first, second, isFirst, isSecond, related⟩
    rw [isFirst, isSecond]
    dsimp only
    split
    · rfl
    · next isNone =>
        rw [Option.isSome_map]
        refine inheritanceDistance?_isSome.mpr (related.resolve_left fun inherits => ?_)
        rw [← inheritanceDistance?_isSome, isNone] at inherits
        cases inherits

/-- A conversion that is allowed stays allowed. -/
theorem Grows.isAssignable
    (grows : Grows before after)
    {source target : Ty}
    (assignable : before.isAssignable source target = true) :
    after.isAssignable source target = true := by
  have classes (first second : String) (related : (before.classCost? first second).isSome) :
      (after.classCost? first second).isSome := by
    obtain ⟨left, right, isLeft, isRight, inherits⟩ := classCost?_isSome.mp related
    exact classCost?_isSome.mpr ⟨left, right, grows.classNamed? isLeft, grows.classNamed? isRight,
      inherits.imp (fun inherits => (grows.classChain left).subset inherits)
        fun inherits => (grows.classChain right).subset inherits⟩
  unfold Tree.isAssignable conversionCost? at assignable ⊢
  split at assignable
  · next same => rwa [if_pos same]
  · next differ =>
      rw [if_neg differ]
      split at assignable
      all_goals first
        | exact classes _ _ assignable
        | simp_all

/-- A class keeps at least its fields. -/
theorem Grows.fields
    (grows : Grows before after)
    (id : ClassId) :
    (before.classDef id).fields.length ≤ (after.classDef id).fields.length := by
  by_cases inside : id.index < before.classes.size
  · exact (grows.classDef inside).fields
  · have missing : before.classDef id = default := by
      rw [Tree.classDef, Tree.class?, Array.getElem?_eq_none (Nat.le_of_not_lt inside)]
      rfl
    rw [missing]
    exact Nat.zero_le _

/-- The instances of a class keep at least their fields. -/
theorem Grows.instanceFields
    (grows : Grows before after)
    (id : ClassId) :
    (before.instanceFields id).length ≤ (after.instanceFields id).length := by
  have counted (tree : Tree) :
      (tree.instanceFields id).length =
        ((tree.classChain id).map fun owner => (tree.classDef owner).fields.length).sum := by
    simp [Tree.instanceFields, List.length_flatMap, List.sum_reverse]
  obtain ⟨more, isMore⟩ := grows.classChain id
  calc (before.instanceFields id).length
      = ((before.classChain id).map fun owner => (before.classDef owner).fields.length).sum :=
        counted before
    _ ≤ ((before.classChain id).map fun owner => (after.classDef owner).fields.length).sum :=
        List.sum_le_sum fun owner _ => grows.fields owner
    _ ≤ ((after.classChain id).map fun owner => (after.classDef owner).fields.length).sum := by
        rw [← isMore, List.map_append, List.sum_append]
        exact Nat.le_add_right _ _
    _ = (after.instanceFields id).length := (counted after).symm

/-- A class keeps its methods. -/
theorem Grows.methods
    (grows : Grows before after)
    (id : ClassId) :
    (before.classDef id).methods <+: (after.classDef id).methods := by
  by_cases inside : id.index < before.classes.size
  · exact (grows.classDef inside).methods
  · have missing : before.classDef id = default := by
      rw [Tree.classDef, Tree.class?, Array.getElem?_eq_none (Nat.le_of_not_lt inside)]
      rfl
    rw [missing]
    exact List.nil_prefix

/-- A class that has a method is in the tree. -/
theorem inside_of_method
    {id : ClassId}
    {method : MethodDef}
    (isMethod : method ∈ (tree.classDef id).methods) :
    id.index < tree.classes.size := by
  by_contra outside
  rw [Tree.classDef, Tree.class?, Array.getElem?_eq_none (Nat.le_of_not_lt outside)] at isMethod
  cases isMethod

end Tree

/-! ### Expressions -/

/-- An implementation of a method stays there. -/
theorem MethodImpl.Within.mono
    {target : MethodImpl}
    (within : target.Within known before)
    (grows : before.Grows after) :
    target.Within known after := by
  cases target with
  | user function => exact Nat.lt_of_lt_of_le within grows.functions_size
  | native id => exact within

/-- What an expression refers to stays there. -/
theorem ExprKind.Refers.mono
    {kind : ExprKind}
    (refers : kind.Refers known before)
    (grows : before.Grows after) :
    kind.Refers known after := by
  cases kind with
  | staticField owner index => exact Nat.lt_of_lt_of_le refers grows.classes_size
  | call function arguments => exact Nat.lt_of_lt_of_le refers grows.functions_size
  | nativeCall native arguments => exact refers
  | methodCall object slot target arguments =>
      exact ⟨fun key isKey => Nat.lt_of_lt_of_le (refers.1 key isKey) grows.methodKeys,
        refers.2.mono grows⟩
  | new owner constructor arguments =>
      exact ⟨Nat.lt_of_lt_of_le refers.1 grows.classes_size,
        fun target isTarget => (refers.2 target isTarget).mono grows⟩
  | _ => trivial

namespace Tree

/-- A field stays there. -/
theorem HasField.mono
    {ty : Ty}
    {index : Nat}
    (has : before.HasField ty index)
    (grows : before.Grows after) :
    after.HasField ty index := by
  obtain ⟨name, owner, isObject, named, inside⟩ := has
  exact ⟨name, owner, isObject, grows.classNamed? named,
    Nat.lt_of_lt_of_le inside (grows.instanceFields owner)⟩

/-- Arguments go on fitting the parameters of a function. -/
theorem Accepts.mono
    {function : FuncId}
    {arguments : List ExprId}
    (accepts : before.Accepts function arguments)
    (grows : before.Grows after)
    (inside : function.index < before.functions.size)
    (there : ∀ argument ∈ arguments, argument.index < before.exprs.size) :
    after.Accepts function arguments := by
  unfold Accepts at accepts ⊢
  rw [(grows.function inside).params]
  generalize (before.function function).params = params at accepts
  induction accepts with
  | nil => exact .nil
  | cons fits _ inductionHypothesis =>
      obtain ⟨first, others⟩ := List.forall_mem_cons.mp there
      refine .cons ?_ (inductionHypothesis others)
      rw [grows.expr first]
      exact grows.isAssignable fits

/-- Calls and fields go on fitting what they refer to. -/
theorem Meets.mono
    {kind : ExprKind}
    (meets : before.Meets kind)
    (grows : before.Grows after)
    (refers : kind.Refers known before)
    (there : ∀ child ∈ kind.children, child.index < before.exprs.size) :
    after.Meets kind := by
  cases kind with
  | call function arguments => exact Accepts.mono meets grows refers there
  | methodCall object slot target arguments =>
      cases target with
      | user function =>
          exact Accepts.mono meets grows refers.2 (List.forall_mem_cons.mp there).2
      | native id => trivial
  | new owner constructor arguments =>
      cases constructor with
      | none => trivial
      | some target =>
          cases target with
          | user function => exact Accepts.mono meets grows (refers.2 _ rfl) there
          | native id => trivial
  | field object index =>
      have meets : before.HasField (before.expr object).ty index.toNat := meets
      rw [← grows.expr (there object (List.mem_singleton_self _))] at meets
      exact HasField.mono meets grows
  | _ => trivial

/-- A type goes on being that of a class. -/
theorem ClassOf.mono
    {ty : Ty}
    {id : ClassId}
    (isClass : before.ClassOf ty id)
    (grows : before.Grows after) :
    after.ClassOf ty id := by
  obtain ⟨name, isObject, named⟩ := isClass
  exact ⟨name, isObject, grows.classNamed? named⟩

/-- A method stays there. -/
theorem HasMethod.mono
    {id : ClassId}
    {slot : Option MethodSlot}
    {target : MethodImpl}
    (has : before.HasMethod id slot target)
    (grows : before.Grows after) :
    after.HasMethod id slot target := by
  obtain ⟨owner, isOwner, method, isMethod, isNamed, same⟩ := has
  refine ⟨owner, (grows.classChain id).subset isOwner, method,
    (grows.methods owner).subset isMethod, ?_, same⟩
  rwa [(grows.classDef (inside_of_method isMethod)).name]

/-- Places go on being places, and methods methods of their objects. -/
theorem Apt.mono
    {kind : ExprKind}
    (apt : before.Apt kind)
    (grows : before.Grows after)
    (there : ∀ child ∈ kind.children, child.index < before.exprs.size) :
    after.Apt kind := by
  cases kind with
  | assign op operand target value =>
      have apt : (before.expr target).kind.isPlace = true := apt
      rwa [← grows.expr (there target List.mem_cons_self)] at apt
  | step op target =>
      have apt : (before.expr target).kind.isPlace = true := apt
      rwa [← grows.expr (there target List.mem_cons_self)] at apt
  | index array position =>
      have apt : ∃ element, (before.expr array).ty = .array element := apt
      rwa [← grows.expr (there array List.mem_cons_self)] at apt
  | methodCall object slot target arguments =>
      intro fits
      obtain ⟨id, isClass, has⟩ := apt (grows.fits fits)
      rw [← grows.expr (there object List.mem_cons_self)] at isClass
      exact ⟨id, isClass.mono grows, has.mono grows⟩
  | _ => trivial

/-- An expression that fits in goes on fitting in. -/
theorem ExprSound.mono
    {index : Nat}
    {node : Expr}
    (sound : before.ExprSound context known index node)
    (inside : index < before.exprs.size)
    (grows : before.Grows after)
    (partsFirst : before.PartsFirst) :
    after.ExprSound context known index node where
  children := sound.children
  refers := sound.refers.mono grows
  short := sound.short
  meets fits :=
    (sound.meets (grows.fits fits)).mono grows sound.refers fun child isChild =>
      Nat.lt_trans (sound.children child isChild) inside
  apt :=
    sound.apt.mono grows fun child isChild =>
      Nat.lt_trans (sound.children child isChild) inside
  operates fits :=
    (grows.operates_iff partsFirst fun child isChild =>
      Nat.lt_trans (sound.children child isChild) inside).mpr (sound.operates (grows.fits fits))

/-- A statement that fits in goes on fitting in. -/
theorem StmtSound.mono
    {index : Nat}
    {kind : StmtKind}
    (sound : before.StmtSound context index kind)
    (grows : before.Grows after) :
    after.StmtSound context index kind where
  exprs id isPart := Nat.lt_of_lt_of_le (sound.exprs id isPart) grows.exprs_size
  children := sound.children
  short := sound.short

/-- The parts of the expressions of a sound tree come before them. -/
theorem Sound.partsFirst
    (sound : tree.Sound context known own) :
    tree.PartsFirst :=
  fun index node found => (sound.exprs index node found).children

/-! ### Variables and constants -/

/-- What a tree says about the variables and the constants in it, it goes on saying. -/
structure Keeps (before after : Tree) : Prop where
  grows : before.Grows after
  operable : ∀ id, id.index < before.exprs.size → before.Operable id → after.Operable id
  reads :
    ∀ id slot, id.index < before.exprs.size → after.Reads id slot → before.Reads id slot
  touches :
    ∀ id slot, id.index < before.stmts.size → after.Touches id slot → before.Touches id slot

/-- An expression of a tree reads no more variables when the tree grows. -/
theorem Grows.reads
    (grows : before.Grows after)
    (children : ∀ (index : Nat) node, before.exprs[index]? = some node →
      ∀ child ∈ node.kind.children, child.index < before.exprs.size)
    {id : ExprId}
    {slot : LocalSlot}
    (inside : id.index < before.exprs.size)
    (reads : after.Reads id slot) :
    before.Reads id slot := by
  have same {id : ExprId} {node : Expr} (inside : id.index < before.exprs.size)
      (found : after.expr? id = some node) :
      before.exprs[id.index]? = some node := by
    have there := Array.getElem?_eq_getElem inside
    rw [Tree.expr?, grows.exprs _ _ there] at found
    rw [there, ← found]
  induction reads with
  | here found isLocal => exact .here (same inside found) isLocal
  | within found isChild _ inductionHypothesis =>
      have found := same inside found
      exact .within found isChild (inductionHypothesis (children _ _ found _ isChild))

/-- A sound tree that grows keeps what it says about variables. -/
theorem Sound.keeps
    (sound : before.Sound context known own)
    (grows : before.Grows after) :
    before.Keeps after := by
  have reads {id : ExprId} {slot : LocalSlot} (inside : id.index < before.exprs.size)
      (reads : after.Reads id slot) :
      before.Reads id slot := by
    refine grows.reads (fun index node found child isChild => ?_) inside reads
    obtain ⟨there, -⟩ := Array.getElem?_eq_some_iff.mp found
    exact Nat.lt_trans ((sound.exprs index node found).children child isChild) there
  refine ⟨grows, fun id inside => (grows.operable_iff sound.partsFirst inside).mpr,
    fun _ _ => reads, fun id slot inside touches => ?_⟩
  have same {id : StmtId} {node : Stmt} (inside : id.index < before.stmts.size)
      (found : after.stmt? id = some node) :
      before.stmts[id.index]? = some node := by
    have there := Array.getElem?_eq_getElem inside
    rw [Tree.stmt?, grows.stmts _ _ there] at found
    rw [there, ← found]
  induction touches with
  | declares found isDeclaration => exact .declares (same inside found) isDeclaration
  | reads found isPart readsSlot =>
      have found := same inside found
      exact .reads found isPart (reads ((sound.stmts _ _ found).exprs _ isPart) readsSlot)
  | within found isChild _ inductionHypothesis =>
      have found := same inside found
      exact .within found isChild
        (inductionHypothesis (Nat.lt_trans ((sound.stmts _ _ found).children _ isChild) inside))

/-- A tree keeps what it says. -/
theorem Keeps.refl (tree : Tree) : tree.Keeps tree :=
  ⟨.refl tree, fun _ _ => id, fun _ _ _ => id, fun _ _ _ => id⟩

/-- What a tree says is kept while it grows twice. -/
theorem Keeps.trans
    {between : Tree}
    (first : before.Keeps between)
    (second : between.Keeps after) :
    before.Keeps after where
  grows := first.grows.trans second.grows
  operable id inside operable :=
    second.operable id (Nat.lt_of_lt_of_le inside first.grows.exprs_size)
      (first.operable id inside operable)
  reads id slot inside reads :=
    first.reads id slot inside
      (second.reads id slot (Nat.lt_of_lt_of_le inside first.grows.exprs_size) reads)
  touches id slot inside touches :=
    first.touches id slot inside
      (second.touches id slot (Nat.lt_of_lt_of_le inside first.grows.stmts_size) touches)

/-- An expression outside all functions stays there. -/
theorem StandsAlone.mono
    {id : ExprId}
    (stands : before.StandsAlone id)
    (keeps : before.Keeps after) :
    after.StandsAlone id where
  inside := Nat.lt_of_lt_of_le stands.inside keeps.grows.exprs_size
  reads fits slot reads :=
    stands.reads (keeps.grows.fits fits) slot (keeps.reads id slot stands.inside reads)

/-! ### Functions and classes -/

/-- A parameter that fits in goes on fitting in. -/
theorem ParamSound.mono
    {index : Nat}
    {param : Param}
    (sound : before.ParamSound index param)
    (keeps : before.Keeps after) :
    after.ParamSound index param where
  slot := sound.slot
  ty := sound.ty
  standsAlone id isDefault := (sound.standsAlone id isDefault).mono keeps
  defaultType id isDefault fits := by
    rw [keeps.grows.expr (sound.standsAlone id isDefault).inside]
    exact sound.defaultType id isDefault (keeps.grows.fits fits)
  literal id isDefault fits := by
    rw [keeps.grows.expr (sound.standsAlone id isDefault).inside]
    exact sound.literal id isDefault (keeps.grows.fits fits)

/-- A function that fits in goes on fitting in. -/
theorem FunctionSound.mono
    {function : FunctionDef}
    (sound : before.FunctionSound context function)
    (keeps : before.Keeps after) :
    after.FunctionSound context function where
  owner owner isOwner := Nat.lt_of_lt_of_le (sound.owner owner isOwner) keeps.grows.classes_size
  params index param found := (sound.params index param found).mono keeps
  defaults := sound.defaults
  short := sound.short
  body body isBody :=
    have bodySound := sound.body body isBody
    { inside := Nat.lt_of_lt_of_le bodySound.inside keeps.grows.stmts_size
      params := bodySound.params
      slots := fun fits slot touches =>
        bodySound.slots (keeps.grows.fits fits) slot
          (keeps.touches body slot bodySound.inside touches) }

/-- A class that fits in goes on fitting in. -/
theorem ClassSound.mono
    {entry : ClassDef}
    (sound : before.ClassSound context known entry)
    (keeps : before.Keeps after) :
    after.ClassSound context known entry where
  names := sound.names
  parent parent isParent :=
    Nat.lt_of_lt_of_le (sound.parent parent isParent) keeps.grows.classes_size
  initials field isField id isInitial := (sound.initials field isField id isInitial).mono keeps
  methods method isMethod :=
    ⟨(sound.methods method isMethod).1.mono keeps.grows, fun slot isSlot =>
      Nat.lt_of_lt_of_le ((sound.methods method isMethod).2 slot isSlot) keeps.grows.methodKeys⟩
  dispatch row isRow :=
    ⟨Nat.lt_of_lt_of_le (sound.dispatch row isRow).1 keeps.grows.methodKeys,
      Nat.lt_of_lt_of_le (sound.dispatch row isRow).2 keeps.grows.functions_size⟩

/-- A sound tree that has grown is sound if its new entries are, and its new classes. -/
theorem Sound.grown
    (sound : before.Sound context known own)
    (grows : before.Grows after)
    (exprs : ∀ (index : Nat) node, after.exprs[index]? = some node →
      before.exprs[index]? = some node ∨ after.ExprSound context known index node)
    (stmts : ∀ (index : Nat) node, after.stmts[index]? = some node →
      before.stmts[index]? = some node ∨ after.StmtSound context index node.kind)
    (functions : ∀ function ∈ after.functions,
      function ∈ before.functions ∨ after.FunctionSound context function)
    (classes : ∀ entry ∈ after.classes, entry ∈ before.classes ∨ after.ClassSound context known entry)
    (named : after.Fits → ∀ id : ClassId,
      before.classes.size ≤ id.index → id.index < after.classes.size →
        after.classNamed? (after.classDef id).name = some id)
    (imported : ∀ (index : Nat) entry, after.classes[index]? = some entry →
      before.classes.size ≤ index → ∀ parent ∈ entry.parent, parent.index < index) :
    after.Sound context known own where
  exprs index node found :=
    (exprs index node found).elim
      (fun old => (sound.exprs index node old).mono (Array.getElem?_eq_some_iff.mp old).1 grows
        sound.partsFirst) id
  stmts index node found :=
    (stmts index node found).elim (fun old => (sound.stmts index node old).mono grows) id
  functions function isFunction :=
    (functions function isFunction).elim
      (fun old => (sound.functions function old).mono (sound.keeps grows)) id
  classes entry isEntry :=
    (classes entry isEntry).elim
      (fun old => (sound.classes entry old).mono (sound.keeps grows)) id
  named fits id inside := by
    by_cases old : id.index < before.classes.size
    · rw [(grows.classDef old).name]
      exact grows.classNamed? (sound.named (grows.fits fits) id old)
    · exact named fits id (Nat.le_of_not_lt old) inside
  imported index entry found isImported parent isParent := by
    by_cases old : index < before.classes.size
    · obtain ⟨later, isLater, becomes⟩ := grows.classes index _ (Array.getElem?_eq_getElem old)
      cases found.symm.trans isLater
      exact sound.imported index _ (Array.getElem?_eq_getElem old) isImported parent
        (becomes.parent ▸ isParent)
    · exact imported index entry found (Nat.le_of_not_lt old) parent isParent

/-- A sound tree that has grown without new classes is sound if its new entries are. -/
theorem Sound.grownInside
    (sound : before.Sound context known own)
    (grows : before.Grows after)
    (size : after.classes.size = before.classes.size)
    (exprs : ∀ (index : Nat) node, after.exprs[index]? = some node →
      before.exprs[index]? = some node ∨ after.ExprSound context known index node)
    (stmts : ∀ (index : Nat) node, after.stmts[index]? = some node →
      before.stmts[index]? = some node ∨ after.StmtSound context index node.kind)
    (functions : ∀ function ∈ after.functions,
      function ∈ before.functions ∨ after.FunctionSound context function)
    (classes : ∀ entry ∈ after.classes, entry ∈ before.classes ∨ after.ClassSound context known entry) :
    after.Sound context known own :=
  sound.grown grows exprs stmts functions classes
    (fun _ _ new inside => absurd inside (Nat.not_lt.mpr (size ▸ new)))
    fun _ _ found new =>
      absurd (Array.getElem?_eq_some_iff.mp found).1 (Nat.not_lt.mpr (size ▸ new))

/-! ### Changes that keep a tree sound -/

namespace Sound

variable (sound : tree.Sound context known own)

include sound

/-- An expression is added. -/
theorem pushExpr
    (node : Expr)
    (fits : tree.ExprSound context known tree.exprs.size node) :
    Sound context known own { tree with exprs := tree.exprs.push node } := by
  have grows := Grows.pushExpr tree node
  refine sound.grownInside grows rfl (fun index other found => ?_) (fun _ _ => .inl)
    (fun _ => .inl) fun _ => .inl
  obtain found | ⟨rfl, rfl⟩ := Array.push_found found
  · exact .inl found
  · exact .inr
      { children := fits.children
        refers := fits.refers.mono grows
        short := fits.short
        meets := fun later => (fits.meets (grows.fits later)).mono grows fits.refers fits.children
        apt := fits.apt.mono grows fits.children
        operates := fun later =>
          (grows.operates_iff sound.partsFirst fits.children).mpr
            (fits.operates (grows.fits later)) }

/-- A statement is added. -/
theorem pushStmt
    (node : Stmt)
    (fits : tree.StmtSound context tree.stmts.size node.kind) :
    Sound context known own { tree with stmts := tree.stmts.push node } := by
  refine sound.grownInside (Grows.pushStmt tree node) rfl (fun _ _ => .inl)
    (fun index other found => ?_) (fun _ => .inl) fun _ => .inl
  obtain found | ⟨rfl, rfl⟩ := Array.push_found found
  · exact .inl found
  · exact .inr (fits.mono (Grows.pushStmt tree _))

/-- A function is added. -/
theorem pushFunction
    (function : FunctionDef)
    (fits : tree.FunctionSound context function) :
    Sound context known own { tree with functions := tree.functions.push function } := by
  have grows := Grows.pushFunction tree function
  refine sound.grownInside grows rfl (fun _ _ => .inl) (fun _ _ => .inl)
    (fun other member => ?_) fun _ => .inl
  obtain member | rfl := Array.mem_push.mp member
  · exact .inl member
  · exact .inr (fits.mono (sound.keeps grows))

/-- A function is changed in a way that its callers do not see. -/
theorem modifyFunction
    (index : Nat)
    {change : FunctionDef → FunctionDef}
    (becomes : ∀ function : FunctionDef, function.Becomes (change function))
    (fits : ∀ function, tree.functions[index]? = some function →
      tree.FunctionSound context (change function)) :
    Sound context known own { tree with functions := tree.functions.modify index change } := by
  have grows := Grows.modifyFunction tree index becomes
  refine sound.grownInside grows rfl (fun _ _ => .inl) (fun _ _ => .inl)
    (fun other member => ?_) fun _ => .inl
  obtain ⟨position, found⟩ := Array.mem_iff_getElem?.mp member
  rw [Array.getElem?_modify] at found
  split at found
  · next same =>
      obtain ⟨old, isOld, rfl⟩ := Option.map_eq_some_iff.mp found
      exact .inr ((fits old (same ▸ isOld)).mono (sound.keeps grows))
  · exact .inl (Array.mem_of_getElem? found)

/-- A class is changed in a way that leaves its name, its parent and its fields. -/
theorem modifyClass
    (index : Nat)
    {change : ClassDef → ClassDef}
    (becomes : ∀ entry : ClassDef, entry.Becomes (change entry))
    (fits : ∀ entry, tree.classes[index]? = some entry → tree.ClassSound context known (change entry)) :
    Sound context known own { tree with classes := tree.classes.modify index change } := by
  have grows := Grows.modifyClass tree index becomes
  refine sound.grownInside grows (by simp) (fun _ _ => .inl) (fun _ _ => .inl) (fun _ => .inl)
    fun other member => ?_
  obtain ⟨position, found⟩ := Array.mem_iff_getElem?.mp member
  rw [Array.getElem?_modify] at found
  split at found
  · next same =>
      obtain ⟨old, isOld, rfl⟩ := Option.map_eq_some_iff.mp found
      exact .inr ((fits old (same ▸ isOld)).mono (sound.keeps grows))
  · exact .inl (Array.mem_of_getElem? found)

/-- A key is added. -/
theorem internMethodKey (key : String) :
    Sound context known own (tree.internMethodKey key).2 := by
  obtain ⟨keys, same⟩ := tree.internMethodKey_same key
  have grows := Grows.internMethodKey tree key
  rw [same] at grows ⊢
  exact sound.grownInside grows rfl (fun _ _ => .inl) (fun _ _ => .inl) (fun _ => .inl)
    fun _ => .inl

/-- A class without members of the program is added under a name that no class has. -/
theorem pushClass
    (entry : ClassDef)
    (fits : tree.ClassSound context known entry)
    (isNew : tree.classNamed? entry.name = none) :
    Sound context known own { tree with classes := tree.classes.push entry } := by
  have grows := Grows.pushClass tree entry
  refine sound.grown grows (fun _ _ => .inl) (fun _ _ => .inl) (fun _ => .inl)
    (fun other member => ?_) (fun later id new inside => ?_) fun index other found new => ?_
  · obtain member | rfl := Array.mem_push.mp member
    · exact .inl member
    · exact .inr (fits.mono (sound.keeps grows))
  · have last : id.index = tree.classes.size :=
      Nat.le_antisymm (Nat.le_of_lt_succ (by simpa using inside)) new
    have isEntry : Tree.classDef { tree with classes := tree.classes.push entry } id = entry := by
      simp [Tree.classDef, Tree.class?, last]
    rw [isEntry, ← id.ofIndex_index, last]
    refine Option.map_eq_some_iff.mpr ⟨_, ?_, rfl⟩
    rw [Tree.classNamed?, Option.map_eq_none_iff] at isNew
    simp [Array.findIdx?_push, isNew]
  · obtain old | ⟨rfl, rfl⟩ := Array.push_found found
    · exact absurd (Array.getElem?_eq_some_iff.mp old).1 (Nat.not_lt.mpr new)
    · exact fits.parent

end Sound

end Tree

end Growth

end BotScript
