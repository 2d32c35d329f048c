import BotScript.Proofs.Assignability

namespace BotScript

/-!
# Protected members

Every access that a program can run has been checked: code names private members of its own
class only, protected ones of the classes that its class inherits from, and code outside of
classes names public members only.
-/

namespace Tree

variable {tree : Tree} {site : Option ClassId} {owner : ClassId} {visibility : Visibility}

/-- Code of a class, or of none, has an expression as a part. -/
inductive Runs (tree : Tree) : Option ClassId → ExprId → Prop where
  | body {function : FunctionDef} {body : StmtId} {part : ExprId} :
      function ∈ tree.functions → function.body = some body → tree.Executes body part →
      Runs tree function.owner part
  | initial {index : Nat} {entry : ClassDef} {field : FieldDef} {id part : ExprId} :
      tree.classes[index]? = some entry → field ∈ entry.fields ++ entry.statics →
      field.initial = some id → tree.Evaluates id part →
      Runs tree (some (Id.ofIndex index)) part

/-- A member with a visibility is open to code of a class, or of none. -/
def Opens (tree : Tree) (site : Option ClassId) (owner : ClassId) : Visibility → Prop
  | .publicAccess => True
  | .privateAccess => site = some owner
  | .protectedAccess => ∃ id, site = some id ∧ Relation.ReflTransGen tree.Inherits id owner

/-- Members that a check admits are open. -/
theorem opens_of_admits
    (admits : tree.admits site owner visibility = true) :
    tree.Opens site owner visibility := by
  cases visibility with
  | publicAccess => trivial
  | privateAccess => exact beq_iff_eq.mp admits
  | protectedAccess =>
      cases site with
      | none => cases admits
      | some id =>
          have inherits : owner ∈ tree.classChain id := List.contains_iff_mem.mp admits
          exact ⟨id, rfl, reaches_of_mem_chainWithin inherits⟩

/-- Only public members are open to code outside of classes. -/
theorem Opens.isPublic
    (opens : tree.Opens none owner visibility) :
    visibility = .publicAccess := by
  cases visibility with
  | publicAccess => rfl
  | privateAccess => cases opens
  | protectedAccess =>
      obtain ⟨_, isClass, -⟩ := opens
      cases isClass

/-- Code that has been guarded may name the members that it names. -/
theorem Guards.mayName
    {part : ExprId}
    (guards : tree.Guards tree)
    (runs : tree.Runs site part) :
    tree.MayName site (tree.expr part).kind := by
  cases runs with
  | body isFunction isBody executes => exact guards.bodies _ isFunction _ isBody part executes
  | initial isEntry isField isInitial evaluates =>
      exact guards.initials _ _ isEntry _ isField _ isInitial part evaluates

end Tree

/-- A whole tree that has been compiled guards its members. -/
theorem compile_guards
    {registry : Registry}
    {tokens : TokenList}
    {tree : Tree}
    (accepted : compile registry tokens = .ok tree)
    (fits : tree.Fits)
    (fields : tree.FieldsFit) :
    tree.Guards tree := by
  have built := compile_built registry.offers_all accepted
  exact built.guards ⟨fits, fields, built.rooted fits⟩

/--
Whenever the code of an accepted program names a field, a method or a constructor, a class
declares it with a visibility that opens it to the code.  To code outside of classes, only
public members are open.
-/
theorem compile_respects_visibility
    {registry : Registry}
    {tokens : TokenList}
    {tree : Tree}
    {site : Option ClassId}
    {part : ExprId}
    (accepted : compile registry tokens = .ok tree)
    (fits : tree.Fits)
    (fields : tree.FieldsFit)
    (runs : tree.Runs site part)
    (isMember : (tree.expr part).kind.isMember = true) :
    ∃ owner visibility, tree.Names owner visibility (tree.expr part).kind ∧
      tree.Opens site owner visibility ∧ (site = none → visibility = .publicAccess) := by
  have guards := compile_guards accepted fits fields
  obtain ⟨owner, visibility, names, admits⟩ := guards.mayName runs isMember
  have opens := Tree.opens_of_admits admits
  refine ⟨owner, visibility, names, opens, fun isFree => ?_⟩
  subst isFree
  exact opens.isPublic

/-- A class whose protected field is used by a class that inherits from it. -/
def Compile.heirText : String :=
  "class A\x7bprivate int x=1;protected int y=2;\x7d" ++
    "class B extends A\x7bint g()\x7breturn y;\x7d\x7d"

open Compile (heirText) in
/-- The method of the second class may use the protected field of the first one. -/
theorem compile_respects_visibility_heir :
    ∃ tree : Tree,
      compile .standard (TokenList.ofSource Registry.standard.constants heirText) = .ok tree ∧
        tree.Fits ∧ tree.FieldsFit ∧ tree.Runs (some ⟨1⟩) ⟨3⟩ ∧
          ∃ owner visibility, tree.Names owner visibility (tree.expr ⟨3⟩).kind ∧
            tree.Opens (some ⟨1⟩) owner visibility ∧
              (some (⟨1⟩ : ClassId) = none → visibility = .publicAccess) := by
  have found :
      (compile .standard
        (TokenList.ofSource Registry.standard.constants heirText)).toOption.any (fun tree =>
          decide (tree.Fits ∧ tree.FieldsFit ∧
            tree.functions[0]?.map (fun method => (method.owner, method.body)) =
              some (some ⟨1⟩, some ⟨1⟩) ∧
            tree.stmts[0]?.map (·.kind) = some (.returnWith (some ⟨3⟩)) ∧
            tree.stmts[1]?.map (·.kind) = some (.block [⟨0⟩]) ∧
            tree.exprs[3]?.map (·.kind) = some (.field ⟨2⟩ 1))) = true := by
    decide +kernel
  obtain ⟨tree, accepted, fits, fields, isMethod, isReturn, isBlock, isField⟩ :=
    compile_ok_of_any found
  obtain ⟨method, isMethod, isCode⟩ := Option.map_eq_some_iff.mp isMethod
  obtain ⟨isOwner, isBody⟩ := Prod.mk.inj isCode
  obtain ⟨first, isFirst, isReturn⟩ := Option.map_eq_some_iff.mp isReturn
  obtain ⟨block, isSecond, isBlock⟩ := Option.map_eq_some_iff.mp isBlock
  obtain ⟨node, isNode, isField⟩ := Option.map_eq_some_iff.mp isField
  have returns : tree.Executes ⟨0⟩ ⟨3⟩ := by
    refine .here (show tree.stmt? ⟨0⟩ = some first from isFirst) ?_ .itself
    rw [isReturn]
    exact List.mem_singleton_self _
  have executes : tree.Executes ⟨1⟩ ⟨3⟩ := by
    refine .within (show tree.stmt? ⟨1⟩ = some block from isSecond) ?_ returns
    rw [isBlock]
    exact List.mem_singleton_self _
  have runs : tree.Runs (some ⟨1⟩) ⟨3⟩ :=
    isOwner ▸ .body (Array.mem_of_getElem? isMethod) isBody executes
  have isKind : (tree.expr ⟨3⟩).kind = .field ⟨2⟩ 1 := by
    rw [Tree.expr, Tree.expr?, show (⟨3⟩ : ExprId).index = 3 from rfl, isNode]
    exact isField
  exact ⟨tree, accepted, fits, fields, runs,
    compile_respects_visibility accepted fits fields runs (by rw [isKind]; rfl)⟩

/-- Outside of the class, its private field is not found. -/
example :
    (compile .standard (TokenList.ofSource Registry.standard.constants
      "class A\x7bprivate int x;\x7dint f(A a)\x7breturn a.x;\x7d")).toOption = none := by
  decide +kernel

end BotScript
