import BotScript.Compile.Scope
import BotScript.Proofs.TreeGrowth
import Mathlib.Data.List.Nodup

namespace BotScript.Scope

/-!
# Lexical scoping

The calls a compilation makes on its scope, with their answers, as a log. Which blocks
are open, which variables a function has and what a name stands for are read off the
log alone, without the scope; after any calls the scope agrees with what is read.
-/

/-- A call on the scope. -/
inductive Call where
  | enterFunction (result : Ty) (owner : Option ClassId) (hasThis : Bool)
  | pushBlock
  | popBlock
  | declare (name : String) (ty : Ty)
  | lookup (name : String)
  | leaveFunction
  deriving DecidableEq

/-- What a call answers. -/
inductive Answer where
  | done
  | declared (slot : LocalSlot)
  | refused (code : ErrorCode)
  | found (entry : Option (LocalSlot × Ty))
  | locals (entries : List LocalDef)
  deriving DecidableEq

/-- Make a call; a declaration that fails leaves the scope as it is. -/
def perform (scope : Scope) : Call → Scope × Answer
  | .enterFunction result owner hasThis => (enterFunction result owner hasThis, .done)
  | .pushBlock => (scope.pushBlock, .done)
  | .popBlock => (scope.popBlock, .done)
  | .declare name ty =>
      match scope.declare name ty with
      | .ok (slot, after) => (after, .declared slot)
      | .error code => (scope, .refused code)
  | .lookup name => (scope, .found (scope.lookup? name))
  | .leaveFunction => (scope.leaveFunction, .locals scope.locals)

/-- A call with its answer. -/
structure Event where
  call : Call
  answer : Answer
  deriving DecidableEq

/-- A scope with the log of the calls that led to it, the latest first. -/
structure Logged where
  scope : Scope := {}
  log : List Event := []

/-- Make a call and log it. -/
def Logged.record (logged : Logged) (call : Call) : Logged :=
  ⟨(logged.scope.perform call).1, ⟨call, (logged.scope.perform call).2⟩ :: logged.log⟩

/-- Make calls, beginning with the empty scope. -/
def performAll (calls : List Call) : Logged :=
  calls.foldl Logged.record {}

/-! ## What a log says -/

/-- Whether a function has been entered and not been left. -/
def insideFunction : List Event → Bool
  | [] => false
  | event :: past =>
      match event.call with
      | .enterFunction .. => true
      | .leaveFunction => false
      | _ => insideFunction past

/-- The open blocks, innermost first, each as the position of the call that opened it. -/
def openBlocks : List Event → List Nat
  | [] => []
  | event :: past =>
      match event.call with
      | .enterFunction .. => [past.length]
      | .pushBlock => if insideFunction past then past.length :: openBlocks past else []
      | .popBlock => (openBlocks past).tail
      | .leaveFunction => []
      | _ => openBlocks past

/-- A variable as its declaration made it, with the block that it was declared in. -/
structure Declaration where
  block : Nat
  name : String
  ty : Ty
  slot : LocalSlot
  deriving DecidableEq

/-- The entry of a variable in the table of its function. -/
def Declaration.entry (declaration : Declaration) : LocalDef :=
  ⟨declaration.name, declaration.ty⟩

/--
The successful declarations since the function was entered, the latest first, also
those of blocks that have been closed.
-/
def declarations : List Event → List Declaration
  | [] => []
  | event :: past =>
      match event.call, event.answer, openBlocks past with
      | .declare name ty, .declared slot, block :: _ =>
          ⟨block, name, ty, slot⟩ :: declarations past
      | .enterFunction .., _, _ => []
      | .leaveFunction, _, _ => []
      | _, _, _ => declarations past

/-- The latest declaration of a name in a block. -/
def declaredIn? (log : List Event) (block : Nat) (name : String) : Option Declaration :=
  (declarations log).find? fun declaration =>
    declaration.block == block && declaration.name == name

/-- What a name stands for: its declaration in the innermost open block that has one. -/
def visible? (log : List Event) (name : String) : Option Declaration :=
  (openBlocks log).findSome? fun block => declaredIn? log block name

/-! ## The scope beside its log -/

/-- The open blocks as the scope keeps them, innermost first. -/
def blocks (scope : Scope) : List (List (String × LocalSlot)) :=
  (scope.function.map (·.blocks)).getD []

/-- The variables of a block as the scope keeps them, the latest first. -/
def blockEntries (log : List Event) (block : Nat) : List (String × LocalSlot) :=
  ((declarations log).filter fun declaration => declaration.block == block).map
    fun declaration => (declaration.name, declaration.slot)

/-- A declaration comes in front of the older ones of its block. -/
theorem blockEntries_declared
    {log : List Event}
    {event : Event}
    {declaration : Declaration}
    (declares : declarations (event :: log) = declaration :: declarations log)
    (block : Nat) :
    blockEntries (event :: log) block =
      if declaration.block = block then
        (declaration.name, declaration.slot) :: blockEntries log block
      else blockEntries log block := by
  unfold blockEntries
  rw [declares, List.filter_cons]
  by_cases isBlock : declaration.block = block <;> simp [isBlock]

/-- A scope is what its log says. -/
structure Logged.Agrees (logged : Logged) : Prop where
  inside : logged.scope.function.isSome = insideFunction logged.log
  blocks : logged.scope.blocks = (openBlocks logged.log).map (blockEntries logged.log)
  locals : logged.scope.locals = (declarations logged.log).reverse.map Declaration.entry
  slots :
    (declarations logged.log).reverse.map (·.slot) =
      (List.range (declarations logged.log).length).map Id.ofIndex
  /-- Blocks are named by positions of the log, so a new one has a new name. -/
  opened : ∀ block ∈ openBlocks logged.log, block < logged.log.length
  declared : ∀ declaration ∈ declarations logged.log, declaration.block < logged.log.length
  apart : (openBlocks logged.log).Nodup

theorem blocks_none
    {scope : Scope}
    (outside : scope.function = none) :
    scope.blocks = [] := by
  simp [blocks, outside]

theorem pushBlock_outside
    {scope : Scope}
    (outside : scope.function = none) :
    scope.pushBlock = scope := by
  obtain ⟨owner, hasThis, function⟩ := scope
  cases outside
  rfl

theorem pushBlock_blocks
    {scope : Scope}
    (inside : scope.function.isSome = true) :
    scope.pushBlock.blocks = [] :: scope.blocks := by
  obtain ⟨function, isFunction⟩ := Option.isSome_iff_exists.mp inside
  simp [blocks, pushBlock, inFunction, isFunction]

theorem popBlock_blocks
    (scope : Scope) :
    scope.popBlock.blocks = scope.blocks.tail := by
  cases isFunction : scope.function <;> simp [blocks, popBlock, inFunction, isFunction]

@[simp]
theorem pushBlock_isSome
    (scope : Scope) :
    scope.pushBlock.function.isSome = scope.function.isSome := by
  simp [pushBlock, inFunction]

@[simp]
theorem popBlock_isSome
    (scope : Scope) :
    scope.popBlock.function.isSome = scope.function.isSome := by
  simp [popBlock, inFunction]

@[simp]
theorem pushBlock_locals
    (scope : Scope) :
    scope.pushBlock.locals = scope.locals := by
  cases isFunction : scope.function <;> simp [locals, pushBlock, inFunction, isFunction]

@[simp]
theorem popBlock_locals
    (scope : Scope) :
    scope.popBlock.locals = scope.locals := by
  cases isFunction : scope.function <;> simp [locals, popBlock, inFunction, isFunction]

/-- Without an open block nothing can be declared. -/
theorem declare_closed
    {scope : Scope}
    (closed : scope.blocks = [])
    (name : String)
    (ty : Ty) :
    scope.declare name ty = .error .noVariable := by
  unfold blocks at closed
  unfold declare
  cases isFunction : scope.function with
  | none => rfl
  | some function =>
      rw [isFunction] at closed
      simp only [Option.map_some, Option.getD_some] at closed
      simp [closed]

/-- In a block that has the name a declaration fails. -/
theorem declare_again
    {scope : Scope}
    {block : List (String × LocalSlot)}
    {outer : List (List (String × LocalSlot))}
    {name : String}
    (isOpen : scope.blocks = block :: outer)
    (has : (block.any fun entry => entry.1 == name) = true)
    (ty : Ty) :
    scope.declare name ty = .error .redefinedVariable := by
  unfold blocks at isOpen
  unfold declare
  cases isFunction : scope.function with
  | none => simp [isFunction] at isOpen
  | some function =>
      rw [isFunction] at isOpen
      simp only [Option.map_some, Option.getD_some] at isOpen
      simp only [isOpen, has, if_true]

/-- In a block that does not have the name a declaration takes the next slot. -/
theorem declare_new
    {scope : Scope}
    {block : List (String × LocalSlot)}
    {outer : List (List (String × LocalSlot))}
    {name : String}
    (isOpen : scope.blocks = block :: outer)
    (new : (block.any fun entry => entry.1 == name) = false)
    (ty : Ty) :
    ∃ after,
      scope.declare name ty = .ok (Id.ofIndex scope.locals.length, after) ∧
      after.function.isSome = scope.function.isSome ∧
      after.blocks = ((name, Id.ofIndex scope.locals.length) :: block) :: outer ∧
      after.locals = scope.locals ++ [⟨name, ty⟩] := by
  unfold blocks at isOpen
  unfold declare
  cases isFunction : scope.function with
  | none => simp [isFunction] at isOpen
  | some function =>
      rw [isFunction] at isOpen
      simp only [Option.map_some, Option.getD_some] at isOpen
      simp [isOpen, new, blocks, locals, isFunction]

/-- A lookup goes through the blocks and reads the type from the table. -/
theorem lookup?_eq
    (scope : Scope)
    (name : String) :
    scope.lookup? name =
      (slotIn? name scope.blocks).bind fun slot =>
        (scope.locals[slot.index]?).map fun entry => (slot, entry.ty) := by
  unfold lookup? blocks locals
  cases isFunction : scope.function with
  | none => simp [slotIn?]
  | some function =>
      simp only [Option.map_some, Option.getD_some, Array.getElem?_toList]
      cases slotIn? name function.blocks <;> rfl

/-- A block as the scope keeps it finds the declaration that the log has for it. -/
theorem lookup_blockEntries
    (log : List Event)
    (block : Nat)
    (name : String) :
    (blockEntries log block).lookup name = (declaredIn? log block name).map (·.slot) := by
  unfold blockEntries declaredIn?
  induction declarations log with
  | nil => rfl
  | cons declaration older ih =>
      by_cases isBlock : declaration.block = block
      · by_cases isName : declaration.name = name
        · simp [isBlock, isName]
        · have differs : (name == declaration.name) = false := by
            simpa using fun same : name = declaration.name => isName same.symm
          simp [isBlock, isName, List.lookup_cons, differs, ih]
      · simp [isBlock, ih]

/-- The blocks as the scope keeps them resolve a name as the log does. -/
theorem slotIn?_blockEntries
    (log : List Event)
    (name : String)
    (blocks : List Nat) :
    slotIn? name (blocks.map (blockEntries log)) =
      (blocks.findSome? fun block => declaredIn? log block name).map (·.slot) := by
  induction blocks with
  | nil => rfl
  | cons block outer ih =>
      rw [List.map_cons, slotIn?, lookup_blockEntries, List.findSome?_cons, ih]
      cases declaredIn? log block name <;> rfl

/-- A block as the scope keeps it has the names that the log has for it. -/
theorem any_blockEntries
    (log : List Event)
    (block : Nat)
    (name : String) :
    ((blockEntries log block).any fun entry => entry.1 == name) =
      (declaredIn? log block name).isSome := by
  rw [Bool.eq_iff_iff]
  simp [blockEntries, declaredIn?]

/-! ## What a call keeps -/

namespace Logged.Agrees

variable {logged : Logged}
  (agrees : logged.Agrees)

include agrees

theorem function_none
    (isOutside : insideFunction logged.log = false) :
    logged.scope.function = none := by
  rw [← Option.isNone_iff_eq_none, ← Option.isSome_eq_false_iff, agrees.inside, isOutside]

/-- Outside every function nothing is open and nothing is declared. -/
theorem outside
    (isOutside : insideFunction logged.log = false) :
    openBlocks logged.log = [] ∧ declarations logged.log = [] := by
  have isNone := agrees.function_none isOutside
  have noBlocks := agrees.blocks
  have noLocals := agrees.locals
  rw [blocks_none isNone] at noBlocks
  simp only [Scope.locals, isNone] at noLocals
  exact ⟨List.map_eq_nil_iff.mp noBlocks.symm,
    List.reverse_eq_nil_iff.mp (List.map_eq_nil_iff.mp noLocals.symm)⟩

/-- The table of a function has one entry for each declaration. -/
theorem locals_length :
    logged.scope.locals.length = (declarations logged.log).length := by
  rw [agrees.locals, List.length_map, List.length_reverse]

/-- An event that declares nothing leaves the variables of every block. -/
theorem redrawn
    {event : Event}
    {after : Scope}
    (declares : declarations (event :: logged.log) = declarations logged.log)
    (locals : after.locals = logged.scope.locals)
    (inside : after.function.isSome = insideFunction (event :: logged.log))
    (blocks : after.blocks = (openBlocks (event :: logged.log)).map (blockEntries logged.log))
    (opened : ∀ block ∈ openBlocks (event :: logged.log), block ≤ logged.log.length)
    (apart : (openBlocks (event :: logged.log)).Nodup) :
    Logged.Agrees ⟨after, event :: logged.log⟩ where
  inside := inside
  blocks := by
    have same : blockEntries (event :: logged.log) = blockEntries logged.log := by
      funext block
      rw [blockEntries, declares, blockEntries]
    rw [same]
    exact blocks
  locals := by rw [declares, locals]; exact agrees.locals
  slots := by rw [declares]; exact agrees.slots
  opened := fun block isOpen => Nat.lt_succ_of_le (opened block isOpen)
  declared := by
    rw [declares]
    exact fun declaration isDeclared => Nat.lt_succ_of_lt (agrees.declared declaration isDeclared)
  apart := apart

/-- An event that neither opens, closes nor declares is one that the scope need not know. -/
theorem unchanged
    {event : Event}
    (inside : insideFunction (event :: logged.log) = insideFunction logged.log)
    (opens : openBlocks (event :: logged.log) = openBlocks logged.log)
    (declares : declarations (event :: logged.log) = declarations logged.log) :
    Logged.Agrees ⟨logged.scope, event :: logged.log⟩ :=
  agrees.redrawn declares rfl
    (agrees.inside.trans inside.symm)
    (by rw [opens]; exact agrees.blocks)
    (by rw [opens]; exact fun block isOpen => Nat.le_of_lt (agrees.opened block isOpen))
    (by rw [opens]; exact agrees.apart)

/-- A block that has not been opened yet has no variables. -/
theorem blockEntries_new :
    blockEntries logged.log logged.log.length = [] := by
  simp only [blockEntries, List.map_eq_nil_iff, List.filter_eq_nil_iff, beq_iff_eq]
  exact fun declaration isDeclared => Nat.ne_of_lt (agrees.declared declaration isDeclared)

omit agrees in
theorem enterFunction
    (result : Ty)
    (owner : Option ClassId)
    (hasThis : Bool) :
    (logged.record (.enterFunction result owner hasThis)).Agrees where
  inside := rfl
  blocks := rfl
  locals := rfl
  slots := rfl
  opened := by simp [record, perform, openBlocks]
  declared := by simp [record, perform, declarations]
  apart := by simp [record, perform, openBlocks]

omit agrees in
theorem leaveFunction :
    (logged.record .leaveFunction).Agrees where
  inside := rfl
  blocks := rfl
  locals := rfl
  slots := rfl
  opened := by simp [record, perform, openBlocks]
  declared := by simp [record, perform, declarations]
  apart := by simp [record, perform, openBlocks]

theorem pushBlock :
    (logged.record .pushBlock).Agrees := by
  cases isInside : insideFunction logged.log with
  | false =>
      have isNone : logged.scope.function = none := agrees.function_none isInside
      have kept := agrees.unchanged (show insideFunction (⟨.pushBlock, .done⟩ :: logged.log) = _
        from rfl) (by simp [openBlocks, isInside, (agrees.outside isInside).1]) rfl
      simpa [record, perform, pushBlock_outside isNone] using kept
  | true =>
      have isSome : logged.scope.function.isSome = true := agrees.inside.trans isInside
      have opens : openBlocks (⟨.pushBlock, .done⟩ :: logged.log) =
          logged.log.length :: openBlocks logged.log := by simp [openBlocks, isInside]
      change Logged.Agrees ⟨logged.scope.pushBlock, ⟨.pushBlock, .done⟩ :: logged.log⟩
      refine agrees.redrawn rfl (pushBlock_locals _) ?_ ?_ ?_ ?_
      · rw [pushBlock_isSome, agrees.inside]
        rfl
      · rw [pushBlock_blocks isSome, opens, List.map_cons, agrees.blockEntries_new, agrees.blocks]
      · rw [opens]
        rintro block (_ | ⟨_, isOpen⟩)
        · exact Nat.le_refl _
        · exact Nat.le_of_lt (agrees.opened block isOpen)
      · rw [opens, List.nodup_cons]
        exact ⟨fun again => Nat.lt_irrefl _ (agrees.opened _ again), agrees.apart⟩

theorem popBlock :
    (logged.record .popBlock).Agrees := by
  change Logged.Agrees ⟨logged.scope.popBlock, ⟨.popBlock, .done⟩ :: logged.log⟩
  refine agrees.redrawn rfl (popBlock_locals _) ?_ ?_ ?_ ?_
  · rw [popBlock_isSome, agrees.inside]
    rfl
  · rw [popBlock_blocks, agrees.blocks]
    exact List.map_tail.symm
  · exact fun block isOpen => Nat.le_of_lt (agrees.opened block (List.mem_of_mem_tail isOpen))
  · exact agrees.apart.tail

/-- A declaration joins the innermost open block with the next slot. -/
theorem declared_new
    {block : Nat}
    {outer : List Nat}
    (isOpen : openBlocks logged.log = block :: outer)
    {name : String}
    {ty : Ty}
    {after : Scope}
    (isSome : after.function.isSome = logged.scope.function.isSome)
    (blocks :
      after.blocks =
        ((name, Id.ofIndex logged.scope.locals.length) :: blockEntries logged.log block) ::
          outer.map (blockEntries logged.log))
    (locals : after.locals = logged.scope.locals ++ [⟨name, ty⟩]) :
    Logged.Agrees
      ⟨after, ⟨.declare name ty, .declared (Id.ofIndex logged.scope.locals.length)⟩ ::
        logged.log⟩ := by
  rw [agrees.locals_length] at blocks ⊢
  have declares :
      declarations
          (⟨.declare name ty, .declared (Id.ofIndex (declarations logged.log).length)⟩ ::
            logged.log) =
        ⟨block, name, ty, Id.ofIndex (declarations logged.log).length⟩ ::
          declarations logged.log := by
    simp [declarations, isOpen]
  have apart := agrees.apart
  rw [isOpen, List.nodup_cons] at apart
  refine ⟨isSome.trans agrees.inside, ?_, ?_, ?_, ?_, ?_, agrees.apart⟩
  · have opens : openBlocks
          (⟨.declare name ty, .declared (Id.ofIndex (declarations logged.log).length)⟩ ::
            logged.log) = block :: outer := isOpen
    have others : ∀ other ∈ outer, block ≠ other := fun other isOther same =>
      apart.1 (same ▸ isOther)
    rw [opens, List.map_cons, blockEntries_declared declares, if_pos rfl, blocks]
    refine congrArg (_ :: ·) (List.map_congr_left fun other isOther => ?_)
    rw [blockEntries_declared declares, if_neg (others other isOther)]
  · rw [declares, locals, agrees.locals, List.reverse_cons, List.map_append]
    rfl
  · rw [declares, List.reverse_cons, List.map_append, agrees.slots, List.length_cons,
      List.range_succ, List.map_append]
    rfl
  · exact fun block isOpen => Nat.lt_succ_of_lt (agrees.opened block isOpen)
  · rw [declares]
    rintro declaration (_ | ⟨_, isDeclared⟩)
    · exact Nat.lt_succ_of_lt (agrees.opened block (isOpen ▸ List.mem_cons_self))
    · exact Nat.lt_succ_of_lt (agrees.declared declaration isDeclared)

theorem declare
    (name : String)
    (ty : Ty) :
    (logged.record (.declare name ty)).Agrees := by
  cases isOpen : openBlocks logged.log with
  | nil =>
      have closed : logged.scope.blocks = [] := by rw [agrees.blocks, isOpen, List.map_nil]
      have refused : logged.scope.perform (.declare name ty) =
          (logged.scope, .refused .noVariable) := by rw [perform, declare_closed closed]
      rw [record, refused]
      exact agrees.unchanged rfl rfl rfl
  | cons block outer =>
      have blocks : logged.scope.blocks =
          blockEntries logged.log block :: outer.map (blockEntries logged.log) := by
        rw [agrees.blocks, isOpen, List.map_cons]
      cases has : (blockEntries logged.log block).any fun entry => entry.1 == name with
      | true =>
          have refused : logged.scope.perform (.declare name ty) =
              (logged.scope, .refused .redefinedVariable) := by
            rw [perform, declare_again blocks has]
          rw [record, refused]
          exact agrees.unchanged rfl rfl rfl
      | false =>
          obtain ⟨after, declares, isSome, blocks, locals⟩ := declare_new blocks has ty
          rw [record, perform, declares]
          exact agrees.declared_new isOpen isSome blocks locals

/-- Every call keeps the agreement. -/
theorem record
    (call : Call) :
    (logged.record call).Agrees := by
  cases call with
  | enterFunction result owner hasThis => exact enterFunction result owner hasThis
  | pushBlock => exact agrees.pushBlock
  | popBlock => exact agrees.popBlock
  | declare name ty => exact agrees.declare name ty
  | lookup name => exact agrees.unchanged rfl rfl rfl
  | leaveFunction => exact leaveFunction

end Logged.Agrees

/-- After any calls the scope is what their log says. -/
theorem performAll_agrees
    (calls : List Call) :
    (performAll calls).Agrees := by
  have start : Logged.Agrees {} :=
    ⟨rfl, rfl, rfl, rfl, by simp [openBlocks], by simp [declarations], by simp [openBlocks]⟩
  unfold performAll
  generalize ({} : Logged) = logged at start ⊢
  induction calls generalizing logged with
  | nil => exact start
  | cons call later ih => exact ih _ (start.record call)

/-! ## Slots -/

namespace Logged.Agrees

variable {logged : Logged}

/-- The declarations of a function have the slots in order. -/
theorem slot_index
    (agrees : logged.Agrees)
    (fits : (declarations logged.log).length ≤ UInt32.size)
    {index : Nat}
    {declaration : Declaration}
    (isDeclared : (declarations logged.log).reverse[index]? = some declaration) :
    declaration.slot.index = index := by
  obtain ⟨inside, -⟩ := List.getElem?_eq_some_iff.mp isDeclared
  rw [List.length_reverse] at inside
  have slot := congrArg (·[index]?) agrees.slots
  simp only [List.getElem?_map, isDeclared, List.getElem?_range inside, Option.map_some,
    Option.some.injEq] at slot
  rw [slot, Id.index_ofIndex (Nat.lt_of_lt_of_le inside fits)]

/-- The table of a function has the variable of a declaration at its slot. -/
theorem entry_slot
    (agrees : logged.Agrees)
    (fits : (declarations logged.log).length ≤ UInt32.size)
    {declaration : Declaration}
    (isDeclared : declaration ∈ declarations logged.log) :
    logged.scope.locals[declaration.slot.index]? = some declaration.entry := by
  obtain ⟨index, isAt⟩ := List.mem_iff_getElem?.mp (List.mem_reverse.mpr isDeclared)
  rw [agrees.slot_index fits isAt, agrees.locals, List.getElem?_map, isAt, Option.map_some]

/-- No slot is given to two declarations. -/
theorem slots_nodup
    (agrees : logged.Agrees)
    (fits : (declarations logged.log).length ≤ UInt32.size) :
    ((declarations logged.log).map (·.slot)).Nodup := by
  rw [← List.nodup_reverse, ← List.map_reverse, agrees.slots]
  refine List.Nodup.map_on ?_ List.nodup_range
  intro first isFirst second isSecond same
  have lt : ∀ index ∈ List.range (declarations logged.log).length, index < UInt32.size :=
    fun index isIndex => Nat.lt_of_lt_of_le (List.mem_range.mp isIndex) fits
  have indices := congrArg Id.index same
  rwa [Id.index_ofIndex (lt first isFirst), Id.index_ofIndex (lt second isSecond)] at indices

/-- A name is looked up to the slot and the type of the declaration that is visible. -/
theorem lookup?_visible
    (agrees : logged.Agrees)
    (fits : (declarations logged.log).length ≤ UInt32.size)
    (name : String) :
    logged.scope.lookup? name =
      (visible? logged.log name).map fun declaration => (declaration.slot, declaration.ty) := by
  rw [lookup?_eq, agrees.blocks, slotIn?_blockEntries]
  change ((visible? logged.log name).map _).bind _ = _
  cases isVisible : visible? logged.log name with
  | none => rfl
  | some declaration =>
      obtain ⟨block, -, found⟩ := List.exists_of_findSome?_eq_some isVisible
      have isDeclared : declaration ∈ declarations logged.log := List.mem_of_find?_eq_some found
      rw [Option.map_some, Option.bind_some, agrees.entry_slot fits isDeclared]
      rfl

/-- A declaration in a block that has the name is refused and changes nothing. -/
theorem declare_refused
    (agrees : logged.Agrees)
    {block : Nat}
    (isInnermost : (openBlocks logged.log).head? = some block)
    {name : String}
    (has : (declaredIn? logged.log block name).isSome = true)
    (ty : Ty) :
    logged.scope.perform (.declare name ty) = (logged.scope, .refused .redefinedVariable) := by
  obtain ⟨outer, isOpen⟩ := List.head?_eq_some_iff.mp isInnermost
  have blocks := agrees.blocks
  rw [isOpen, List.map_cons] at blocks
  rw [perform, declare_again blocks ((any_blockEntries ..).trans has)]

/-- A declaration in a block that does not have the name gets the next slot. -/
theorem declare_accepted
    (agrees : logged.Agrees)
    {block : Nat}
    (isInnermost : (openBlocks logged.log).head? = some block)
    {name : String}
    (new : declaredIn? logged.log block name = none)
    (ty : Ty) :
    (logged.scope.perform (.declare name ty)).2 =
      .declared (Id.ofIndex (declarations logged.log).length) := by
  obtain ⟨outer, isOpen⟩ := List.head?_eq_some_iff.mp isInnermost
  have blocks := agrees.blocks
  rw [isOpen, List.map_cons] at blocks
  have hasNot := any_blockEntries logged.log block name
  rw [new, Option.isSome_none] at hasNot
  obtain ⟨after, declares, -, -, -⟩ := declare_new blocks hasNot ty
  rw [perform, declares, agrees.locals_length]

end Logged.Agrees

/--
The scope of a compilation is lexical, whatever calls are made in whatever order.

In the innermost open block a declaration is refused exactly if the block has the name,
and then it changes nothing; otherwise it gets the slot that counts the declarations of
the function before it, those of closed blocks too. A function ends with one table entry
for each of its declarations, in order. As long as slots can number them, a name is
looked up to the slot and the type of its latest declaration in the innermost open block
that declares it, and declarations, slots and table entries correspond one to one.
-/
theorem performAll_lexical (calls : List Call) :
    (∀ block name ty, (openBlocks (performAll calls).log).head? = some block →
      ((declaredIn? (performAll calls).log block name).isSome = true →
        (performAll calls).scope.perform (.declare name ty) =
          ((performAll calls).scope, .refused .redefinedVariable)) ∧
      (declaredIn? (performAll calls).log block name = none →
        ((performAll calls).scope.perform (.declare name ty)).2 =
          .declared (Id.ofIndex (declarations (performAll calls).log).length))) ∧
    ((performAll calls).scope.perform .leaveFunction).2 =
      .locals ((declarations (performAll calls).log).reverse.map Declaration.entry) ∧
    ((declarations (performAll calls).log).length ≤ UInt32.size →
      (∀ name,
        (performAll calls).scope.lookup? name =
          (visible? (performAll calls).log name).map fun declaration =>
            (declaration.slot, declaration.ty)) ∧
      (∀ index (declaration : Declaration),
        (declarations (performAll calls).log).reverse[index]? = some declaration →
        declaration.slot.index = index) ∧
      (∀ declaration ∈ declarations (performAll calls).log,
        (performAll calls).scope.locals[declaration.slot.index]? = some declaration.entry) ∧
      ((declarations (performAll calls).log).map (·.slot)).Nodup) := by
  have agrees := performAll_agrees calls
  refine ⟨fun block name ty isInnermost => ⟨?_, ?_⟩, ?_, fun fits => ⟨?_, ?_, ?_, ?_⟩⟩
  · exact fun has => agrees.declare_refused isInnermost has ty
  · exact fun new => agrees.declare_accepted isInnermost new ty
  · exact congrArg Answer.locals agrees.locals
  · exact agrees.lookup?_visible fits
  · exact fun index declaration => agrees.slot_index fits
  · exact fun declaration => agrees.entry_slot fits
  · exact agrees.slots_nodup fits

/-- A variable that a block shadows, after the block has been closed. -/
def shadowing : List Call :=
  [.enterFunction .void none false, .declare "a" .int, .pushBlock, .declare "a" .float,
    .lookup "a", .popBlock]

/-- A closed block gives its names back, but not its slots. -/
theorem performAll_lexical_shadowing :
    (performAll shadowing).scope.lookup? "a" = some (⟨0⟩, .int) ∧
    (performAll shadowing).scope.perform (.declare "a" .float) =
      ((performAll shadowing).scope, .refused .redefinedVariable) ∧
    ((performAll shadowing).scope.perform (.declare "b" .int)).2 = .declared ⟨2⟩ ∧
    ((performAll shadowing).scope.perform .leaveFunction).2 =
      .locals [⟨"a", .int⟩, ⟨"a", .float⟩] := by
  obtain ⟨declares, leaves, resolves⟩ := performAll_lexical shadowing
  have facts :
      (openBlocks (performAll shadowing).log).head? = some 0 ∧
      (declaredIn? (performAll shadowing).log 0 "a").isSome = true ∧
      declaredIn? (performAll shadowing).log 0 "b" = none ∧
      declarations (performAll shadowing).log = [⟨2, "a", .float, ⟨1⟩⟩, ⟨0, "a", .int, ⟨0⟩⟩] ∧
      visible? (performAll shadowing).log "a" = some ⟨0, "a", .int, ⟨0⟩⟩ := by
    decide +kernel
  obtain ⟨innermost, hasA, hasNotB, declared, visible⟩ := facts
  refine ⟨?_, (declares 0 "a" .float innermost).1 hasA, ?_, ?_⟩
  · rw [(resolves (by rw [declared]; decide)).1 "a", visible]
    rfl
  · rw [(declares 0 "b" .int innermost).2 hasNotB, declared]
    rfl
  · rw [leaves, declared]
    rfl

end BotScript.Scope
