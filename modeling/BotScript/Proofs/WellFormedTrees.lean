import BotScript.Host.Standard
import BotScript.Proofs.BuildingPrograms
import BotScript.Proofs.Tokenization

namespace BotScript

/-!
# Well-formed trees

The tree of every accepted program is well-formed: whatever it refers to is in
it, the parts of nodes come before the nodes and classes inherit in no circle,
every function has a body in which its parameters come first, variables and
fields exist, and calls fit the functions they call.
-/

/-! ## Registries -/

/-- The methods of the classes of a registry are natives of the registry. -/
def Registry.Closed (registry : Registry) : Prop :=
  ∀ entry ∈ registry.classes, ∀ method ∈ entry.methods,
    method.native.index < registry.natives.size

namespace Registry.Closed

variable {registry : Registry}

/-- A registry without classes is closed. -/
theorem empty : Registry.empty.Closed :=
  nofun

/-- A closed registry stays closed when a function is registered. -/
theorem addFunction
    (closed : registry.Closed)
    (native : Native) :
    (registry.addFunction native).Closed := by
  intro entry isEntry method isMethod
  have inside := closed entry isEntry method isMethod
  simp only [Registry.addFunction, Array.size_push]
  exact Nat.lt_succ_of_lt inside

/-- A closed registry stays closed when functions are registered. -/
theorem addFunctions
    (closed : registry.Closed)
    (natives : List Native) :
    (natives.foldl Registry.addFunction registry).Closed := by
  induction natives generalizing registry with
  | nil => exact closed
  | cons native natives inductionHypothesis => exact inductionHypothesis (closed.addFunction native)

/-- A closed registry stays closed when a class is registered. -/
theorem addClass
    (closed : registry.Closed)
    (name : String)
    (parent : Option String)
    (fields : List HostField)
    (methods : List Native) :
    (registry.addClass name parent fields methods).Closed := by
  unfold Registry.addClass
  split
  · exact closed
  · intro entry isEntry method isMethod
    simp only [Array.size_append, List.size_toArray]
    obtain old | isNew := List.mem_append.mp isEntry
    · exact Nat.lt_add_right _ (closed entry old method isMethod)
    · obtain rfl := List.mem_singleton.mp isNew
      obtain ⟨⟨native, index⟩, isNative, rfl⟩ := List.mem_map.mp isMethod
      have inside : index < methods.length := List.snd_lt_of_mem_zipIdx isNative
      exact Nat.lt_of_le_of_lt (Id.index_ofIndex_le _) (Nat.add_lt_add_left inside _)

/-- A closed registry stays closed when a constant is defined. -/
theorem defineConstant
    (closed : registry.Closed)
    (name : String)
    (value : Int64) :
    (registry.defineConstant name value).Closed :=
  closed

/-- The standard library is closed. -/
theorem standard : Registry.standard.Closed :=
  ((empty.addFunctions _).addClass _ _ _ _).addFunction _

/-- Everything that a closed registry offers is a native of it. -/
theorem offers
    (closed : registry.Closed) :
    registry.Offers fun id => id.index < registry.natives.size where
  methods := closed
  natives id isNative := by
    obtain ⟨native, found⟩ := Option.isSome_iff_exists.mp isNative
    exact (Array.getElem?_eq_some_iff.mp found).1

end Registry.Closed

/-! ## Well-formed functions and classes -/

namespace Tree

variable (registry : Registry) (tree : Tree)

/-- One class is the parent of another one. -/
def Inherits (id parent : ClassId) : Prop :=
  (tree.classDef id).parent = some parent

/-- A function has a body, in which its parameters are the first variables. -/
structure FunctionWellFormed (function : FunctionDef) : Prop where
  owner : ∀ owner ∈ function.owner, owner.index < tree.classes.size
  params :
    ∀ (index : Nat) param, function.params[index]? = some param →
      param.slot.index = index ∧ function.locals[index]? = some param.toLocal
  defaults :
    ∀ param ∈ function.params, ∀ id ∈ param.defaultValue,
      id.index < tree.exprs.size ∧ ∀ slot, ¬ tree.Reads id slot
  body :
    ∃ body, function.body = some body ∧ body.index < tree.stmts.size ∧
      ∀ slot, tree.Touches body slot → slot.index < function.locals.length

/-- The members of a class are there, and its initializers use no variables. -/
structure ClassWellFormed (entry : ClassDef) : Prop where
  parent : ∀ parent ∈ entry.parent, parent.index < tree.classes.size
  initials :
    ∀ field ∈ entry.fields ++ entry.statics, ∀ id ∈ field.initial,
      id.index < tree.exprs.size ∧ ∀ slot, ¬ tree.Reads id slot
  methods :
    ∀ method ∈ entry.methods,
      method.implementation.Within (fun id => id.index < registry.natives.size) tree ∧
        ∀ slot ∈ method.slot, slot.index < tree.methodKeys.size
  dispatch :
    ∀ row ∈ entry.dispatch,
      row.1.index < tree.methodKeys.size ∧ row.2.index < tree.functions.size

/-- The nodes, functions and classes of a tree fit together. -/
structure WellFormed : Prop where
  exprs :
    ∀ (index : Nat) node, tree.exprs[index]? = some node →
      (∀ child ∈ node.kind.children, child.index < index) ∧
        node.kind.Refers (fun id => id.index < registry.natives.size) tree ∧
          tree.Meets node.kind
  stmts :
    ∀ (index : Nat) node, tree.stmts[index]? = some node →
      (∀ id ∈ node.kind.childExprs, id.index < tree.exprs.size) ∧
        ∀ child ∈ node.kind.childStmts, child.index < index
  functions : ∀ function ∈ tree.functions, tree.FunctionWellFormed function
  classes : ∀ entry ∈ tree.classes, tree.ClassWellFormed registry entry
  acyclic : ∀ id, ¬ Relation.TransGen tree.Inherits id id

end Tree

namespace Tree

variable {registry : Registry} {tree : Tree} {context : CompileContext}

/-- A class whose ancestors end is not among them. -/
theorem Rooted.acyclic
    {id : ClassId}
    (rooted : tree.Rooted id) :
    ¬ Relation.TransGen tree.Inherits id id := by
  induction rooted with
  | top isTop =>
      intro circle
      obtain ⟨parent, inherits, -⟩ := Relation.TransGen.head'_iff.mp circle
      cases isTop.symm.trans inherits
  | under isParent _ inductionHypothesis =>
      -- A circle through a class is also one through its parent.
      intro circle
      obtain ⟨parent, inherits, back⟩ := Relation.TransGen.head'_iff.mp circle
      cases isParent.symm.trans inherits
      exact inductionHypothesis (.tail' back isParent)

/-- The functions of a tree that is built are well-formed. -/
theorem FunctionSound.wellFormed
    {function : FunctionDef}
    (sound : tree.FunctionSound context function)
    (ended : context.Ended)
    (short : context.tokens.size ≤ UInt32.size)
    (fits : tree.Fits)
    (hasBody : function.body.isSome) :
    tree.FunctionWellFormed function := by
  obtain ⟨body, isBody⟩ := Option.isSome_iff_exists.mp hasBody
  have bodySound := sound.body body isBody
  refine ⟨sound.owner, fun index param found => ⟨?_, ?_⟩, fun param isParam id isDefault => ?_,
    body, isBody, bodySound.inside, bodySound.slots fits⟩
  · have inside := (List.getElem?_eq_some_iff.mp found).1
    have length := sound.short ended
    rw [(sound.params index param found).slot]
    exact Id.index_ofIndex (by omega)
  · obtain ⟨more, isMore⟩ := bodySound.params
    have there : (function.params.map Param.toLocal)[index]? = some param.toLocal := by
      simp [found]
    rw [← isMore]
    exact List.getElem?_append_left (List.getElem?_eq_some_iff.mp there).1 ▸ there
  · obtain ⟨index, found⟩ := List.mem_iff_getElem?.mp isParam
    have stands := (sound.params index param found).standsAlone id isDefault
    exact ⟨stands.inside, stands.reads fits⟩

/-- The classes of a tree that is built are well-formed. -/
theorem ClassSound.wellFormed
    {entry : ClassDef}
    (sound : tree.ClassSound context (fun id => id.index < registry.natives.size) entry)
    (fits : tree.Fits) :
    tree.ClassWellFormed registry entry where
  parent := sound.parent
  initials field isField id isInitial :=
    have stands := sound.initials field isField id isInitial
    ⟨stands.inside, stands.reads fits⟩
  methods := sound.methods
  dispatch := sound.dispatch

/-- A tree that is built from the tokens of a text is well-formed. -/
theorem Built.wellFormed
    (built : tree.Built context fun id => id.index < registry.natives.size)
    (ended : context.Ended)
    (short : context.tokens.size ≤ UInt32.size)
    (fits : tree.Fits) :
    tree.WellFormed registry := by
  obtain ⟨⟨own, sound⟩, bodies, rooted, -⟩ := built
  refine ⟨fun index node found => ?_, fun index node found => ?_, fun function isFunction => ?_,
    fun entry isEntry => (sound.classes entry isEntry).wellFormed fits,
    fun id => (rooted fits id).acyclic⟩
  · have exprSound := sound.exprs index node found
    exact ⟨exprSound.children, exprSound.refers, exprSound.meets fits⟩
  · have stmtSound := sound.stmts index node found
    exact ⟨stmtSound.exprs, stmtSound.children⟩
  · exact (sound.functions function isFunction).wellFormed ended short fits
      (bodies fits function isFunction)

end Tree

/-! ## Accepted programs -/

/-- A program is accepted if something is found to hold of its tree. -/
theorem compile_ok_of_any
    {registry : Registry}
    {tokens : TokenList}
    {facts : Tree → Prop}
    [DecidablePred facts]
    (found : (compile registry tokens).toOption.any (fun tree => decide (facts tree)) = true) :
    ∃ tree, compile registry tokens = .ok tree ∧ facts tree := by
  cases accepted : compile registry tokens with
  | error error =>
      rw [accepted] at found
      cases found
  | ok tree =>
      rw [accepted] at found
      exact ⟨tree, rfl, of_decide_eq_true found⟩

/-- The tokens of a text end with the mark of the end. -/
theorem Laid.ended
    {source before : String}
    {tokens : List Token}
    (laid : Laid source before tokens) :
    ∀ token ∈ tokens.getLast?, token.kind = .endOfText := by
  induction laid with
  | last isEnd =>
      rintro _ ⟨⟩
      exact isEnd
  | more _ _ _ rest inductionHypothesis =>
      rwa [List.getLast?_cons_of_ne_nil rest.ne_nil]

/-- The tokens of a text that words can count end with the mark of the end, and are short. -/
theorem CompileContext.ended_ofSource
    (registry : Registry)
    {source : String}
    (short : source.utf8ByteSize < UInt32.size) :
    (CompileContext.mk (TokenList.ofSource registry.constants source).tokens registry).Ended ∧
      (TokenList.ofSource registry.constants source).tokens.size ≤ UInt32.size := by
  have laid := TokenList.ofSource_laid registry.constants short
  refine ⟨fun token found => laid.ended token ?_, ?_⟩
  · rw [List.getLast?_eq_getElem?]
    simpa using found
  · have length := laid.length_le
    rw [Array.length_toList] at length
    omega

/-- The tree of an accepted program is well-formed. -/
theorem compile_wellFormed
    {registry : Registry}
    {source : String}
    {tree : Tree}
    (closed : registry.Closed)
    (short : source.utf8ByteSize < UInt32.size)
    (accepted :
      compile registry (TokenList.ofSource registry.constants source) = .ok tree)
    (fits : tree.Fits) :
    tree.WellFormed registry := by
  obtain ⟨ended, size⟩ := CompileContext.ended_ofSource registry short
  exact (compile_built closed.offers accepted).wellFormed ended size fits

/-- A class with an initializer, and a function with a default that uses its field. -/
def Compile.tiles : String :=
  "class A\x7bint x=1;\x7dint f(A a,int n=2)\x7breturn a.x*n;\x7d"

open Compile (tiles) in
/-- A program with a class and a function is accepted with a well-formed tree. -/
theorem compile_wellFormed_tiles :
    tiles.utf8ByteSize < UInt32.size ∧
      ∃ tree : Tree,
        compile .standard (TokenList.ofSource Registry.standard.constants tiles) = .ok tree ∧
          tree.Fits ∧ tree.WellFormed .standard := by
  have short : tiles.utf8ByteSize < UInt32.size := by decide +kernel
  have sizes :
      (compile .standard (TokenList.ofSource Registry.standard.constants tiles)).toOption.map
          (fun tree => [tree.exprs.size, tree.stmts.size, tree.functions.size, tree.classes.size,
            tree.methodKeys.size]) =
        some [7, 2, 1, 1, 0] := by
    decide +kernel
  refine ⟨short, ?_⟩
  cases accepted : compile .standard (TokenList.ofSource Registry.standard.constants tiles) with
  | error error =>
      rw [accepted] at sizes
      cases sizes
  | ok tree =>
      rw [accepted] at sizes
      simp only [Except.toOption, Option.map_some, Option.some.injEq, List.cons.injEq]
        at sizes
      obtain ⟨exprs, stmts, functions, classes, keys, -⟩ := sizes
      have fits : tree.Fits := by
        constructor <;> simp only [exprs, stmts, functions, classes, keys] <;> decide
      exact ⟨tree, rfl, fits, compile_wellFormed .standard short accepted fits⟩

end BotScript
