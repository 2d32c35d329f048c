import BotScript.Compile.Program
import Mathlib.Data.List.Forall2
import Mathlib.Logic.Relation

namespace BotScript

/-!
# How trees grow

A tree only grows while a program is compiled: nodes are added and never
changed, and what functions and classes look like to their users stays.  An
identifier therefore goes on meaning what it meant when it was issued.
-/

/-! ## Identifiers -/

/-- A position is at least the position that its identifier stands for. -/
theorem Id.index_ofIndex_le
    {table : Table}
    (index : Nat) :
    (Id.ofIndex index : Id table).index ≤ index := by
  unfold Id.index Id.ofIndex Word.ofNat
  split
  · next fits => simp [UInt32.toNat_ofNat_of_lt' fits]
  · next wide =>
      have wide : UInt32.size ≤ index := Nat.le_of_not_lt wide
      exact Nat.le_trans (Nat.le_of_lt (UInt32.toNat_lt_size _)) wide

/-- The identifier of a position that is a word stands for it. -/
theorem Id.index_ofIndex
    {table : Table}
    {index : Nat}
    (fits : index < UInt32.size) :
    (Id.ofIndex index : Id table).index = index := by
  simp [Id.index, Id.ofIndex, Word.ofNat, fits, UInt32.toNat_ofNat_of_lt' fits]

/-- An identifier is that of the position that it stands for. -/
theorem Id.ofIndex_index
    {table : Table}
    (id : Id table) :
    Id.ofIndex id.index = id := by
  simp [Id.index, Id.ofIndex, Word.ofNat, UInt32.toNat_lt_size]

/-! ## Tables -/

/-- The first entry of a list is found under its own key only. -/
theorem lookup_entry
    {α β : Type}
    [DecidableEq α]
    {other : α}
    (key : α)
    (content : β)
    (rest : List (α × β)) :
    List.lookup other ((key, content) :: rest) =
      if other = key then some content else List.lookup other rest := by
  rw [List.lookup_cons]
  by_cases same : other = key
  · rw [if_pos same, beq_iff_eq.mpr same]
  · rw [if_neg same, beq_false_of_ne same]

/-- Entries of an array stay at their places when one is pushed. -/
theorem Array.found_push
    {α : Type}
    {entries : Array α}
    {entry last : α}
    {index : Nat}
    (found : entries[index]? = some entry) :
    (entries.push last)[index]? = some entry := by
  obtain ⟨inside, -⟩ := Array.getElem?_eq_some_iff.mp found
  rw [Array.getElem?_push, if_neg (Nat.ne_of_lt inside)]
  exact found

/-- An entry of an array onto which one is pushed is that one or an old one. -/
theorem Array.push_found
    {α : Type}
    {entries : Array α}
    {entry last : α}
    {index : Nat}
    (found : (entries.push last)[index]? = some entry) :
    entries[index]? = some entry ∨ index = entries.size ∧ entry = last := by
  rw [Array.getElem?_push] at found
  split at found
  · next isLast =>
      cases found
      exact .inr ⟨isLast, rfl⟩
  · exact .inl found

/-! ## Growth -/

/-- A function as its callers see it stays, and so does the fact that it has a body. -/
structure FunctionDef.Becomes (before after : FunctionDef) : Prop where
  name : after.name = before.name
  owner : after.owner = before.owner
  params : after.params = before.params
  result : after.result = before.result
  body : before.body.isSome → after.body.isSome

/-- A class keeps its name, its parent, its methods and at least its fields. -/
structure ClassDef.Becomes (before after : ClassDef) : Prop where
  name : after.name = before.name
  parent : after.parent = before.parent
  fields : before.fields.length ≤ after.fields.length
  methods : before.methods <+: after.methods

namespace Tree

/-- One tree has grown out of another one. -/
structure Grows (before after : Tree) : Prop where
  exprs :
    ∀ (index : Nat) node, before.exprs[index]? = some node → after.exprs[index]? = some node
  stmts :
    ∀ (index : Nat) node, before.stmts[index]? = some node → after.stmts[index]? = some node
  functions :
    ∀ (index : Nat) function, before.functions[index]? = some function →
      ∃ later, after.functions[index]? = some later ∧ function.Becomes later
  classes :
    ∀ (index : Nat) entry, before.classes[index]? = some entry →
      ∃ later, after.classes[index]? = some later ∧ entry.Becomes later
  methodKeys : before.methodKeys.size ≤ after.methodKeys.size

/-- The tables of a tree are counted by words, so that identifiers are exact. -/
structure Fits (tree : Tree) : Prop where
  exprs : tree.exprs.size < UInt32.size
  stmts : tree.stmts.size < UInt32.size
  functions : tree.functions.size < UInt32.size
  classes : tree.classes.size < UInt32.size
  methodKeys : tree.methodKeys.size < UInt32.size

instance (tree : Tree) : Decidable tree.Fits :=
  decidable_of_iff
    (tree.exprs.size < UInt32.size ∧ tree.stmts.size < UInt32.size ∧
      tree.functions.size < UInt32.size ∧ tree.classes.size < UInt32.size ∧
        tree.methodKeys.size < UInt32.size)
    ⟨fun sizes => ⟨sizes.1, sizes.2.1, sizes.2.2.1, sizes.2.2.2.1, sizes.2.2.2.2⟩,
      fun fits => ⟨fits.exprs, fits.stmts, fits.functions, fits.classes, fits.methodKeys⟩⟩

/-- A name finds the same class while classes keep their places and their names. -/
theorem classNamed?_of_names
    {before after : Tree}
    {name : String}
    {id : ClassId}
    (names : ∀ (index : Nat) entry, before.classes[index]? = some entry →
      ∃ later, after.classes[index]? = some later ∧ later.name = entry.name)
    (named : before.classNamed? name = some id) :
    after.classNamed? name = some id := by
  unfold Tree.classNamed? at named ⊢
  obtain ⟨index, first, rfl⟩ := Option.map_eq_some_iff.mp named
  obtain ⟨inside, same, others⟩ := Array.findIdx?_eq_some_iff_getElem.mp first
  refine Option.map_eq_some_iff.mpr ⟨index, ?_, rfl⟩
  have kept {other : Nat} (there : other < before.classes.size) :
      ∃ later : other < after.classes.size,
        after.classes[other].name = before.classes[other].name := by
    obtain ⟨last, found, sameName⟩ := names _ _ (Array.getElem?_eq_getElem there)
    obtain ⟨later, rfl⟩ := Array.getElem?_eq_some_iff.mp found
    exact ⟨later, sameName⟩
  rw [Array.findIdx?_eq_some_iff_getElem]
  obtain ⟨later, sameName⟩ := kept inside
  refine ⟨later, by simpa only [sameName] using same, fun other earlier => ?_⟩
  obtain ⟨_, otherName⟩ := kept (Nat.lt_trans earlier inside)
  simpa only [otherName] using others other earlier

namespace Grows

variable {before between after : Tree}

/-- A tree grows out of itself. -/
theorem refl (tree : Tree) : Grows tree tree where
  exprs _ _ found := found
  stmts _ _ found := found
  functions _ function found := ⟨function, found, ⟨rfl, rfl, rfl, rfl, id⟩⟩
  classes _ entry found := ⟨entry, found, ⟨rfl, rfl, Nat.le_refl _, List.prefix_rfl⟩⟩
  methodKeys := Nat.le_refl _

/-- A tree grows twice. -/
theorem trans
    (first : Grows before between)
    (second : Grows between after) :
    Grows before after where
  exprs index node found := second.exprs index node (first.exprs index node found)
  stmts index node found := second.stmts index node (first.stmts index node found)
  functions index function found := by
    obtain ⟨later, foundLater, becomes⟩ := first.functions index function found
    obtain ⟨last, foundLast, becomesLast⟩ := second.functions index later foundLater
    exact ⟨last, foundLast, becomesLast.name.trans becomes.name,
      becomesLast.owner.trans becomes.owner, becomesLast.params.trans becomes.params,
      becomesLast.result.trans becomes.result, becomesLast.body ∘ becomes.body⟩
  classes index entry found := by
    obtain ⟨later, foundLater, becomes⟩ := first.classes index entry found
    obtain ⟨last, foundLast, becomesLast⟩ := second.classes index later foundLater
    exact ⟨last, foundLast, becomesLast.name.trans becomes.name,
      becomesLast.parent.trans becomes.parent,
      Nat.le_trans becomes.fields becomesLast.fields,
      becomes.methods.trans becomesLast.methods⟩
  methodKeys := Nat.le_trans first.methodKeys second.methodKeys

/-- A table whose entries stay at their places does not shrink. -/
private theorem size_le_of_found
    {α : Type}
    {first second : Array α}
    (stays : ∀ (index : Nat) entry, first[index]? = some entry → ∃ later, second[index]? = some later) :
    first.size ≤ second.size := by
  by_contra smaller
  have inside : second.size < first.size := Nat.lt_of_not_le smaller
  obtain ⟨later, found⟩ := stays second.size _ (Array.getElem?_eq_getElem inside)
  simp at found

variable (grows : Grows before after)

include grows

/-- No expression is lost. -/
theorem exprs_size : before.exprs.size ≤ after.exprs.size :=
  size_le_of_found fun index node found => ⟨node, grows.exprs index node found⟩

/-- No statement is lost. -/
theorem stmts_size : before.stmts.size ≤ after.stmts.size :=
  size_le_of_found fun index node found => ⟨node, grows.stmts index node found⟩

/-- No function is lost. -/
theorem functions_size : before.functions.size ≤ after.functions.size :=
  size_le_of_found fun index function found =>
    (grows.functions index function found).imp fun _ found => found.1

/-- No class is lost. -/
theorem classes_size : before.classes.size ≤ after.classes.size :=
  size_le_of_found fun index entry found =>
    (grows.classes index entry found).imp fun _ found => found.1

/-- Identifiers were exact if they still are. -/
theorem fits
    (fits : after.Fits) :
    before.Fits where
  exprs := Nat.lt_of_le_of_lt grows.exprs_size fits.exprs
  stmts := Nat.lt_of_le_of_lt grows.stmts_size fits.stmts
  functions := Nat.lt_of_le_of_lt grows.functions_size fits.functions
  classes := Nat.lt_of_le_of_lt grows.classes_size fits.classes
  methodKeys := Nat.lt_of_le_of_lt grows.methodKeys fits.methodKeys

/-- An expression stays what it is. -/
theorem expr
    {id : ExprId}
    (inside : id.index < before.exprs.size) :
    after.expr id = before.expr id := by
  have found := Array.getElem?_eq_getElem inside
  rw [Tree.expr, Tree.expr, Tree.expr?, Tree.expr?, grows.exprs _ _ found, found]

/-- A function looks the same to its callers. -/
theorem function
    {id : FuncId}
    (inside : id.index < before.functions.size) :
    (before.function id).Becomes (after.function id) := by
  have found := Array.getElem?_eq_getElem inside
  obtain ⟨later, foundLater, becomes⟩ := grows.functions _ _ found
  rw [Tree.function, Tree.function, Tree.function?, Tree.function?, foundLater, found]
  exact becomes

/-- A class keeps what other classes see of it. -/
theorem classDef
    {id : ClassId}
    (inside : id.index < before.classes.size) :
    (before.classDef id).Becomes (after.classDef id) := by
  have found := Array.getElem?_eq_getElem inside
  obtain ⟨later, foundLater, becomes⟩ := grows.classes _ _ found
  rw [Tree.classDef, Tree.classDef, Tree.class?, Tree.class?, foundLater, found]
  exact becomes

/-! ### Names and chains of classes -/

/-- A name stays that of the class that had it. -/
theorem classNamed?
    {name : String}
    {id : ClassId}
    (named : before.classNamed? name = some id) :
    after.classNamed? name = some id :=
  classNamed?_of_names
    (fun index entry found =>
      (grows.classes index entry found).imp fun _ found => ⟨found.1, found.2.name⟩) named

/-- The chain of a class goes on from what it was. -/
theorem chainWithin
    {bound : Nat}
    {id : ClassId}
    (more : Nat) :
    before.chainWithin bound id <+: after.chainWithin (bound + more) id := by
  induction bound generalizing id with
  | zero =>
      rw [Nat.zero_add]
      cases more with
      | zero => exact List.prefix_rfl
      | succ more =>
          unfold Tree.chainWithin
          split <;> simp
  | succ bound inductionHypothesis =>
      rw [Nat.add_right_comm, Tree.chainWithin, Tree.chainWithin]
      by_cases inside : id.index < before.classes.size
      · rw [(grows.classDef inside).parent]
        cases (before.classDef id).parent with
        | some parent => exact List.cons_prefix_cons.mpr ⟨rfl, inductionHypothesis⟩
        | none => exact List.prefix_rfl
      · have missing : before.classDef id = default := by
          rw [Tree.classDef, Tree.class?, Array.getElem?_eq_none (Nat.le_of_not_lt inside)]
          rfl
        rw [missing]
        cases (after.classDef id).parent <;> simp [default, instInhabitedClassDef.default]

/-- The ancestors of a class stay its ancestors. -/
theorem classChain
    (id : ClassId) :
    before.classChain id <+: after.classChain id := by
  obtain ⟨more, isMore⟩ := Nat.exists_eq_add_of_le grows.classes_size
  rw [Tree.classChain, Tree.classChain, isMore]
  exact grows.chainWithin more

end Grows

/-! ## Changes that let a tree grow -/

/-- To intern a key changes the keys only. -/
theorem internMethodKey_same (tree : Tree) (key : String) :
    ∃ methodKeys, (tree.internMethodKey key).2 = { tree with methodKeys } := by
  unfold Tree.internMethodKey
  split <;> exact ⟨_, rfl⟩

/-- An interned key is one of the keys. -/
theorem internMethodKey_inside (tree : Tree) (key : String) :
    (tree.internMethodKey key).1.index < (tree.internMethodKey key).2.methodKeys.size := by
  unfold Tree.internMethodKey
  split
  · next position found =>
      exact Nat.lt_of_le_of_lt (Id.index_ofIndex_le _) (Array.findIdx?_eq_some_iff_getElem.mp found).1
  · exact Nat.lt_of_le_of_lt (Id.index_ofIndex_le _) (by simp)

namespace Grows

/-- An expression is added. -/
theorem pushExpr (tree : Tree) (node : Expr) :
    tree.Grows { tree with exprs := tree.exprs.push node } where
  __ := Grows.refl tree
  exprs _ _ found := Array.found_push found

/-- A statement is added. -/
theorem pushStmt (tree : Tree) (node : Stmt) :
    tree.Grows { tree with stmts := tree.stmts.push node } where
  __ := Grows.refl tree
  stmts _ _ found := Array.found_push found

/-- A function is added. -/
theorem pushFunction (tree : Tree) (function : FunctionDef) :
    tree.Grows { tree with functions := tree.functions.push function } where
  __ := Grows.refl tree
  functions _ function found :=
    ⟨function, Array.found_push found, ⟨rfl, rfl, rfl, rfl, id⟩⟩

/-- A class is added. -/
theorem pushClass (tree : Tree) (entry : ClassDef) :
    tree.Grows { tree with classes := tree.classes.push entry } where
  __ := Grows.refl tree
  classes _ entry found :=
    ⟨entry, Array.found_push found, ⟨rfl, rfl, Nat.le_refl _, List.prefix_rfl⟩⟩

/-- A key is added unless it is there. -/
theorem internMethodKey (tree : Tree) (key : String) :
    tree.Grows (tree.internMethodKey key).2 := by
  unfold Tree.internMethodKey
  split
  · exact .refl tree
  · exact { Grows.refl tree with methodKeys := by simp }

/-- A function is changed in a way that its callers do not see. -/
theorem modifyFunction
    (tree : Tree)
    (index : Nat)
    {change : FunctionDef → FunctionDef}
    (becomes : ∀ function : FunctionDef, function.Becomes (change function)) :
    tree.Grows { tree with functions := tree.functions.modify index change } where
  __ := Grows.refl tree
  functions position function found := by
    rw [Array.getElem?_modify, found]
    split
    · exact ⟨change function, rfl, becomes function⟩
    · exact ⟨function, rfl, ⟨rfl, rfl, rfl, rfl, id⟩⟩

/-- A class is changed in a way that leaves its name, its parent and its fields. -/
theorem modifyClass
    (tree : Tree)
    (index : Nat)
    {change : ClassDef → ClassDef}
    (becomes : ∀ entry : ClassDef, entry.Becomes (change entry)) :
    tree.Grows { tree with classes := tree.classes.modify index change } where
  __ := Grows.refl tree
  classes position entry found := by
    rw [Array.getElem?_modify, found]
    split
    · exact ⟨change entry, rfl, becomes entry⟩
    · exact ⟨entry, rfl, ⟨rfl, rfl, Nat.le_refl _, List.prefix_rfl⟩⟩

end Grows

end Tree

end BotScript
