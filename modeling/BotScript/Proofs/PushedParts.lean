import BotScript.Proofs.PushedFrames

namespace BotScript

/-!
# What calls, expressions and the root push

The arguments of a call, the items of an array, the fields of a class and the static
fields are gone through in order.  A frame that comes to one of them is at a later place.
-/

namespace Step

variable {tree : Tree} {setting : Setting} {origin frame : Frame}
  {incoming : Option Completion}

namespace Descends

/-! ## Expressions -/

/-- The argument that comes next, and the frame behind it. -/
theorem collected
    (frame : Frame)
    (arguments : List ExprId)
    (incoming : Option Completion) :
    Gives
      (fun collected =>
        collected.1.node = frame.node ∧
          ∀ next, collected.2 = some next →
            arguments[frame.cursor.toNat]? = some next ∧
              collected.1.state = frame.state ∧ collected.1.cursor = frame.cursor + 1)
      (fun _ => True) (Step.collect frame arguments incoming) := by
  have chosen (values : List Value) :
      Gives
        (fun collected : Frame × Option ExprId =>
          collected.1.node = frame.node ∧
            ∀ next, collected.2 = some next →
              arguments[frame.cursor.toNat]? = some next ∧
                collected.1.state = frame.state ∧ collected.1.cursor = frame.cursor + 1)
        (fun _ => True) (Step.collect { frame with values } arguments none) := by
    unfold Step.collect
    simp only [pure_bind]
    split
    · next next isThere =>
      refine .pure ⟨rfl, fun other isNext => ?_⟩
      cases isNext
      exact ⟨isThere, rfl, rfl⟩
    · exact .pure ⟨rfl, fun _ isNext => by cases isNext⟩
  cases incoming with
  | none => exact chosen frame.values
  | some completion => exact (Gives.any _).bind fun value _ => chosen (frame.values ++ [value])

/-- An element of an array. -/
theorem element
    (demand : Demand) :
    Descends tree origin (Step.element frame demand incoming) := by
  refine behind fun position => ?_
  cases demand with
  | place =>
      exact behind fun _ => behind fun _ => behind fun _ => behind fun _ => behind fun _ =>
        behind fun _ => complete _
  | value =>
      dsimp only
      split
      · exact behind fun _ => behind fun _ => deliver _ _
      · exact raise _
      · exact raise _

section Expression

variable {id : ExprId} {demand : Demand} {node : Expr}
  (isNode : origin.node = .expression id demand) (found : setting.tree.expr? id = some node)

include isNode

/-- A frame that evaluates an expression can wait. -/
theorem canWait_expression
    (sameNode : frame.node = origin.node) :
    frame.CanWait setting.tree :=
  Frame.canWait_of_node (fun _ isStatement => by cases isNode.symm.trans (sameNode ▸ isStatement))
    fun _ isSetup => by cases isNode.symm.trans (sameNode ▸ isSetup)

/-- A function on top of an expression. -/
theorem enterFunction
    {function : FuncId}
    (sameNode : frame.node = origin.node)
    (isLater : origin.state < frame.state)
    (pushes : setting.tree.canPush origin.node (.function function) = true)
    (this : Option ObjectId)
    (arguments : List ExprId)
    (values : List Value) :
    Descends setting.tree origin (do
      let act ← Step.bind setting function this arguments values
      pure (.push frame (.enter (.function function) act))) := by
  have isFunction :
      Gives (fun _ => (setting.tree.function? function).isSome) (fun _ => True)
        (Step.bind setting function this arguments values) :=
    (Gives.require _ _).bind fun _ found => Gives.fact (Option.isSome_of_eq_some found) _
  refine isFunction.bind fun act known => .pure ?_
  exact .calls (canWait_expression isNode sameNode) (fun _ => Frame.rank_lt_of_state isLater)
    ⟨sameNode, pushes⟩ known

include found

/-- A part of an expression on top of it. -/
theorem evaluatePart
    {child : ExprId}
    (isPart : child ∈ node.kind.children)
    (sameNode : frame.node = origin.node)
    (isLater : setting.tree.Countable → origin.rank < frame.rank)
    (demand' : Demand) :
    Descends setting.tree origin (pure (Step.pushExpression frame child demand')) :=
  .pure (.evaluates (canWait_expression isNode sameNode) isLater
    ⟨sameNode, by simp [isNode, Tree.canPush, found, isPart]⟩)

/-- The first part of an expression on top of it, or a part at a later step. -/
theorem evaluateLater
    {child : ExprId}
    (isPart : child ∈ node.kind.children)
    (sameNode : frame.node = origin.node)
    (isLater : origin.state < frame.state)
    (demand' : Demand) :
    Descends setting.tree origin (pure (Step.pushExpression frame child demand')) :=
  evaluatePart isNode found isPart sameNode (fun _ => Frame.rank_lt_of_state isLater) demand'

/-- The next argument on top of an expression, or what follows all of them. -/
theorem collect
    {arguments : List ExprId}
    {rest : Frame → Step Move}
    (parts : ∀ argument ∈ arguments, argument ∈ node.kind.children)
    (listed : node.kind.arguments = arguments)
    (goesOn :
      ∀ frame : Frame, frame.node = origin.node → Descends setting.tree origin (rest frame)) :
    Descends setting.tree origin (do
      match ← Step.collect origin arguments incoming with
      | (frame, some next) => pure (Step.pushExpression frame next .value)
      | (frame, none) => rest frame) := by
  refine (collected origin arguments incoming).bind fun result holds => ?_
  obtain ⟨frame, next⟩ := result
  obtain ⟨sameNode, isNext⟩ := holds
  cases next with
  | none => exact goesOn frame sameNode
  | some next =>
      obtain ⟨isThere, sameState, isBehind⟩ := isNext next rfl
      refine evaluatePart isNode found (parts next (List.mem_of_getElem? isThere)) sameNode
        (fun countable => Frame.rank_lt_of_cursor sameState.symm ?_) _
      have short := listed ▸ countable.arguments id.index node found
      have inside := (List.getElem?_eq_some_iff.mp isThere).1
      dsimp only at isBehind
      rw [isBehind, UInt32.toNat_succ_of_lt inside short]
      exact Nat.lt_succ_self _

/-- A call of a function of the program. -/
theorem call
    {function : FuncId}
    {arguments : List ExprId}
    (isKind : node.kind = .call function arguments)
    (ty : Ty) :
    Descends setting.tree origin
      (Step.call setting origin function arguments ty demand incoming) := by
  unfold Step.call
  split
  · next state =>
    exact collect isNode found (by simp [isKind, ExprKind.children])
      (by simp [isKind, ExprKind.arguments])
      fun frame sameNode => enterFunction isNode (by exact sameNode) (by simp [state])
        (by simp [isNode, Tree.canPush, found, isKind]) _ _ _
  · exact behind fun _ => produce _ _ _

/-- A call of a function of the host. -/
theorem nativeCall
    {native : NativeId}
    {arguments : List ExprId}
    (isKind : node.kind = .nativeCall native arguments)
    (ty : Ty) :
    Descends setting.tree origin
      (Step.nativeCall setting origin native arguments ty demand incoming) :=
  collect isNode found (by simp [isKind, ExprKind.children])
    (by simp [isKind, ExprKind.arguments]) fun _ _ => behind fun _ => produce _ _ _

/-- A call of a method. -/
theorem methodCall
    {object : ExprId}
    {slot : Option MethodSlot}
    {target : MethodImpl}
    {arguments : List ExprId}
    (isKind : node.kind = .methodCall object slot target arguments)
    (ty : Ty) :
    Descends setting.tree origin
      (Step.methodCall setting origin object slot target arguments ty demand incoming) := by
  unfold Step.methodCall
  split
  · next state =>
    exact evaluateLater isNode found (by simp [isKind, ExprKind.children]) (by rfl)
      (by simp [state]) _
  · next state =>
    refine collect isNode found (by simp +contextual [isKind, ExprKind.children])
      (by simp [isKind, ExprKind.arguments]) fun frame sameNode => behind fun this => ?_
    dsimp only
    split
    · exact behind fun heap =>
        enterFunction isNode (by exact sameNode) (by simp [state])
          (by simp [isNode, Tree.canPush, found, isKind]) _ _ _
    · exact behind fun _ => produce _ _ _
  · exact behind fun _ => produce _ _ _

/-- A new instance. -/
theorem newInstance
    {owner : ClassId}
    {constructor : Option MethodImpl}
    {arguments : List ExprId}
    (isKind : node.kind = .new owner constructor arguments)
    (ty : Ty) :
    Descends setting.tree origin
      (Step.newInstance setting origin owner constructor arguments ty demand incoming) := by
  unfold Step.newInstance
  split
  · next state =>
    refine collect isNode found (by simp [isKind, ExprKind.children])
      (by simp [isKind, ExprKind.arguments]) fun frame sameNode => ?_
    refine behind fun layout => behind fun object => pushOwner fun act => .setsUp ?_ (fun _ => ?_) ?_
    · exact canWait_expression isNode (by exact sameNode)
    · exact Frame.rank_lt_of_state (by simp [state])
    · exact ⟨sameNode, by simp [isNode, Tree.canPush, found, isKind]⟩
  · next state =>
    refine behind fun _ => behind fun last => behind fun this => ?_
    dsimp only
    split
    · exact produce _ _ _
    · exact enterFunction isNode (by rfl) (by simp [state])
        (by simp [isNode, Tree.canPush, found, isKind]) _ _ _
    · exact behind fun _ => produce _ _ _
  · exact behind fun _ => behind fun _ => produce _ _ _

/-- The literal of an array. -/
theorem arrayLiteral
    {items : List ExprId}
    (isKind : node.kind = .arrayLiteral items)
    (ty : Ty) :
    Descends setting.tree origin
      (Step.arrayLiteral setting.tree origin items ty demand incoming) := by
  have next {next : ExprId}
      {values : List Value}
      (isThere : items[origin.cursor.toNat]? = some next) :
      Descends setting.tree origin
        (pure (Step.pushExpression { origin with values, cursor := origin.cursor + 1 } next
          .value)) := by
    refine evaluatePart isNode found ?_ (by exact rfl)
      (fun countable => Frame.rank_lt_of_cursor (by exact rfl) ?_) _
    · simpa [isKind, ExprKind.children] using List.mem_of_getElem? isThere
    · have short := countable.arguments id.index node found
      rw [isKind] at short
      have inside := (List.getElem?_eq_some_iff.mp isThere).1
      rw [UInt32.toNat_succ_of_lt inside short]
      exact Nat.lt_succ_self _
  refine behind fun element => ?_
  dsimp only
  split
  · refine behind fun values => ?_
    split
    · next isThere => exact next isThere
    · split
      · exact behind fun _ => behind fun _ => produce _ _ _
      · exact behind fun _ => produce _ _ _
  · refine behind fun _ => behind fun _ => behind fun _ => behind fun _ => behind fun values => ?_
    split
    · next isThere => exact next isThere
    · split
      · exact behind fun _ => behind fun _ => produce _ _ _
      · exact behind fun _ => produce _ _ _

omit found in
/-- A step of an expression. -/
theorem expression :
    Descends setting.tree origin (Step.expression setting origin id demand incoming) := by
  refine (Gives.part _).bind fun node found => ?_
  have first
      {state : UInt32}
      {child : ExprId}
      (isPart : child ∈ node.kind.children)
      (isLater : origin.state < state)
      (demand' : Demand) :
      Descends setting.tree origin
        (pure (Step.pushExpression { origin with state } child demand')) :=
    evaluateLater isNode found isPart (by rfl) isLater demand'
  dsimp only
  split <;> rename_i isKind
  · exact produce _ _ _
  · exact behind fun _ => behind fun _ => deliver _ _
  · exact behind fun _ => produce _ _ _
  · split
    · next state =>
      exact first (by simp [isKind, ExprKind.children]) (by simp [state]) _
    · exact behind fun _ => behind fun _ => behind fun _ => behind fun _ => deliver _ _
  · exact behind fun _ => behind fun _ => deliver _ _
  · split
    · next state =>
      exact first (by simp [isKind, ExprKind.children]) (by simp [state]) _
    · next state =>
      refine behind fun cell => ?_
      exact evaluateLater isNode found (by simp [isKind, ExprKind.children]) (by rfl)
        (by simp [state]) _
    · next state =>
      refine behind fun value => ?_
      exact evaluateLater isNode found (by simp [isKind, ExprKind.children]) (by rfl)
        (by simp [state]) _
    · exact element _
  · split
    · next state =>
      exact first (by simp [isKind, ExprKind.children]) (by simp [state]) _
    · next state =>
      refine behind fun cell => ?_
      exact evaluateLater isNode found (by simp [isKind, ExprKind.children]) (by rfl)
        (by simp [state]) _
    · exact behind fun _ => behind fun _ => behind fun _ => behind fun _ => behind fun _ =>
        produce _ _ _
  · split
    · next state =>
      exact first (by simp [isKind, ExprKind.children]) (by simp [state]) _
    · exact behind fun _ => behind fun _ => behind fun _ => behind fun _ => behind fun _ =>
        produce _ _ _
  · split
    · next state =>
      exact first (by simp [isKind, ExprKind.children]) (by simp [state]) _
    · next state =>
      refine behind fun value => ?_
      exact evaluateLater isNode found (by simp [isKind, ExprKind.children]) (by rfl)
        (by simp [state]) _
    · exact behind fun _ => behind fun _ => behind fun _ => behind fun _ => behind fun _ =>
        behind fun _ => behind fun _ => produce _ _ _
  · split
    · next state =>
      exact first (by simp [isKind, ExprKind.children]) (by simp [state]) _
    · next state =>
      refine behind fun value => ?_
      split
      · exact produce _ _ _
      · exact first (by simp [isKind, ExprKind.children]) (by simp [state]) _
    · exact behind fun _ => produce _ _ _
  · split
    · next state =>
      exact first (by simp [isKind, ExprKind.children]) (by simp [state]) _
    · next state =>
      refine behind fun value => ?_
      split
      · exact evaluateLater isNode found (by simp [isKind, ExprKind.children]) (by rfl)
          (by simp [state]) _
      · exact evaluateLater isNode found (by simp [isKind, ExprKind.children]) (by rfl)
          (by simp [state]) _
    · exact behind fun _ => behind fun _ => behind fun _ => produce _ _ _
  · split
    · next state =>
      exact first (by simp [isKind, ExprKind.children]) (by simp [state]) _
    · exact behind fun _ => behind fun _ => produce _ _ _
  · exact call isNode found isKind _
  · exact nativeCall isNode found isKind _
  · exact methodCall isNode found isKind _
  · exact newInstance isNode found isKind _
  · exact arrayLiteral isNode found isKind _

end Expression

/-! ## Functions, the root and field values -/

/-- The static field that comes next is at or behind the place from which it is searched. -/
theorem bounds_of_nextStaticIn
    {initials : List FieldDef}
    {aux reached : UInt32}
    {initial : ExprId}
    (found : nextStaticIn initials aux = some (reached, initial))
    (countable : aux.toNat + initials.length < UInt32.size) :
    aux.toNat ≤ reached.toNat ∧ reached.toNat < aux.toNat + initials.length := by
  induction initials generalizing aux with
  | nil => cases found
  | cons field rest inductionHypothesis =>
      rw [List.length_cons] at countable ⊢
      unfold nextStaticIn at found
      split at found
      · cases found
        omega
      · have position : (aux + 1).toNat = aux.toNat + 1 :=
          UInt32.toNat_succ_of_lt (Nat.lt_succ_self _) (by omega)
        obtain ⟨behind, inside⟩ := inductionHypothesis found (by omega)
        omega

/-- The static field that comes next is in the same class or in a later one. -/
theorem bounds_of_nextStatic
    {classes : List ClassDef}
    {cursor aux owner reached : UInt32}
    {initial : ExprId}
    (found : nextStatic classes cursor aux = some (owner, reached, initial))
    (countable : cursor.toNat + classes.length < UInt32.size)
    (statics : ∀ entry ∈ classes, entry.statics.length < UInt32.size) :
    (owner = cursor ∧ aux.toNat ≤ reached.toNat ∧ reached.toNat + 1 < UInt32.size) ∨
      cursor.toNat < owner.toNat := by
  induction classes generalizing cursor aux with
  | nil => cases found
  | cons entry rest inductionHypothesis =>
      rw [List.length_cons] at countable
      unfold nextStatic at found
      split at found
      · next first =>
        cases found
        have short := statics entry List.mem_cons_self
        have room := aux.toNat_lt
        have bounds := bounds_of_nextStaticIn first
          (by simp only [List.length_drop, UInt32.size] at *; omega)
        rw [List.length_drop] at bounds
        exact .inl ⟨rfl, bounds.1, by omega⟩
      · have position : (cursor + 1).toNat = cursor.toNat + 1 :=
          UInt32.toNat_succ_of_lt (Nat.lt_succ_self _) (by omega)
        have later := inductionHypothesis found (by omega)
          fun other member => statics other (List.mem_cons_of_mem _ member)
        refine .inr ?_
        obtain ⟨rfl, -, -⟩ | later := later <;> omega

/-- The initial value that comes next belongs to a static field. -/
theorem nextStaticIn_mem
    {initials : List FieldDef}
    {aux reached : UInt32}
    {initial : ExprId}
    (found : nextStaticIn initials aux = some (reached, initial)) :
    ∃ field ∈ initials, field.initial = some initial := by
  induction initials generalizing aux with
  | nil => simp [nextStaticIn] at found
  | cons field rest inductionHypothesis =>
      unfold nextStaticIn at found
      split at found
      · next own =>
          cases found
          exact ⟨field, List.mem_cons_self .., own⟩
      · obtain ⟨other, member, own⟩ := inductionHypothesis found
        exact ⟨other, List.mem_cons_of_mem _ member, own⟩

/-- The initial value that comes next belongs to a static field of a class. -/
theorem nextStatic_mem
    {classes : List ClassDef}
    {cursor aux owner reached : UInt32}
    {initial : ExprId}
    (found : nextStatic classes cursor aux = some (owner, reached, initial)) :
    ∃ entry ∈ classes, ∃ field ∈ entry.statics, field.initial = some initial := by
  induction classes generalizing cursor aux with
  | nil => simp [nextStatic] at found
  | cons entry rest inductionHypothesis =>
      unfold nextStatic at found
      split at found
      · next first =>
          cases found
          obtain ⟨field, member, own⟩ := nextStaticIn_mem first
          exact ⟨entry, List.mem_cons_self .., field, List.mem_of_mem_drop member, own⟩
      · obtain ⟨other, member, own⟩ := inductionHypothesis found
        exact ⟨other, List.mem_cons_of_mem _ member, own⟩

section Root

variable {entry : FuncId} (isNode : origin.node = .start entry)

include isNode

/-- The root frame can wait. -/
theorem canWait_start
    (sameNode : frame.node = origin.node) :
    frame.CanWait tree :=
  Frame.canWait_of_node (fun _ isStatement => by cases isNode.symm.trans (sameNode ▸ isStatement))
    fun _ isSetup => by cases isNode.symm.trans (sameNode ▸ isSetup)

/-- The entry function. -/
theorem callEntry
    (sameNode : frame.node = origin.node)
    (early : origin.state < 3) :
    Descends setting.tree origin (Step.callEntry setting frame entry) := by
  refine (Gives.require _ _).bind fun function found => behind fun activation =>
    behind fun act => .pure ?_
  exact .calls (canWait_start isNode (by exact sameNode)) (fun _ => Frame.rank_lt_of_state early)
    ⟨sameNode, by simp [isNode, Tree.canPush]⟩ (Option.isSome_of_eq_some found)

/-- The next initial value of a static field, or the entry function. -/
theorem startNext
    (sameNode : frame.node = origin.node)
    (early : origin.state < 3)
    (isLater :
      ∀ cursor aux : UInt32, setting.tree.Countable →
      (cursor = frame.cursor ∧ frame.aux.toNat ≤ aux.toNat ∧ aux.toNat + 1 < UInt32.size) ∨
        frame.cursor.toNat < cursor.toNat →
      origin.rank < { frame with cursor, aux, state := 1 }.rank) :
    Descends setting.tree origin (Step.startNext setting frame entry) := by
  unfold Step.startNext
  dsimp only
  split
  · next cursor aux initial found =>
    refine .pure (.evaluates (canWait_start isNode (by exact sameNode)) (fun countable => ?_)
      ⟨sameNode, ?_⟩)
    · refine isLater cursor aux countable (bounds_of_nextStatic found ?_ ?_)
      · have room := frame.cursor.toNat_lt
        have short := countable.classes
        simp only [List.length_drop, Array.length_toList, UInt32.size] at *
        omega
      · intro other member
        exact countable.statics other (by simpa using List.mem_of_mem_drop member)
    · obtain ⟨owner, isOwner, field, isField, own⟩ := nextStatic_mem found
      have isClass : owner ∈ setting.tree.classes := by simpa using List.mem_of_mem_drop isOwner
      obtain ⟨index, inside, rfl⟩ := Array.mem_iff_getElem.mp isClass
      simp only [isNode, Tree.canPush, Array.any_eq_true, List.any_eq_true, beq_iff_eq]
      exact ⟨index, inside, field, isField, own⟩
  · exact callEntry isNode (by exact sameNode) early

omit isNode in
/-- The static field whose initial value is stored is there. -/
theorem storeStatic_found
    (value : Value) :
    Gives (fun _ => ∃ entry ∈ setting.tree.classes, frame.aux.toNat < entry.statics.length)
      (fun _ => True) (Step.storeStatic setting frame value) := by
  refine (Gives.require _ _).bind fun field found => ?_
  obtain ⟨entry, isEntry, isField⟩ := Option.bind_eq_some_iff.mp found
  have inside := (List.getElem?_eq_some_iff.mp isField).1
  exact Gives.fact ⟨entry, Array.mem_of_getElem? isEntry, inside⟩ _

/-- A step of the root frame. -/
theorem start :
    Descends setting.tree origin (Step.start setting origin entry incoming) := by
  unfold Step.start
  split
  · next state =>
    exact startNext isNode rfl (by simp [state])
      fun _ _ _ _ => Frame.rank_lt_of_state (by simp [state])
  · next state =>
    refine behind fun value => (storeStatic_found value).bind fun _ isThere => ?_
    obtain ⟨entry, isEntry, inside⟩ := isThere
    refine startNext isNode rfl (by simp [state]) fun cursor aux countable isLater => ?_
    have position := UInt32.toNat_succ_of_lt inside (countable.statics entry isEntry)
    obtain ⟨rfl, behind, room⟩ | behind := isLater
    · refine Frame.rank_lt_of_aux state rfl ?_
      have next : (aux + 1).toNat = aux.toNat + 1 :=
        UInt32.toNat_succ_of_lt (Nat.lt_succ_self _) room
      dsimp only at behind ⊢
      omega
    · exact Frame.rank_lt_of_cursor state behind
  · next state =>
    exact callEntry isNode rfl (by simp [state])
  · exact behind fun _ => complete _

end Root

/-- A step of the body of a function. -/
theorem function
    {id : FuncId}
    (isNode : origin.node = .function id) :
    Descends setting.tree origin (Step.function setting origin id incoming) := by
  refine (Gives.part _).bind fun function found => ?_
  split
  · refine (Gives.require _ _).bind fun body isBody => .pure (.runs ?_ ⟨rfl, ?_⟩)
    · exact Frame.canWait_of_node (fun _ isStatement => by cases isNode.symm.trans isStatement)
        fun _ isSetup => by cases isNode.symm.trans isSetup
    · simp [isNode, Tree.canPush, found, isBody]
  · split
    · exact complete _
    · exact complete _
    · split
      · exact complete _
      · exact raise _

section FieldSetup

variable {owner : ClassId} (isNode : origin.node = .fieldSetup owner)

include isNode

/-- The next field with an initial value. -/
theorem setupFrom
    (this : ObjectId)
    (fields : List FieldDef)
    (areFields : fields ⊆ (tree.instanceFields owner).map (·.2))
    (sameNode : frame.node = origin.node)
    (isLater :
      origin.state = 1 → tree.Countable →
      frame.cursor.toNat + fields.length < UInt32.size ∧
        origin.cursor.toNat < frame.cursor.toNat) :
    Descends tree origin (Step.setupFrom this frame fields) := by
  induction fields generalizing frame with
  | nil => exact done
  | cons field rest inductionHypothesis =>
      obtain ⟨isField, others⟩ := List.cons_subset.mp areFields
      have goOn :
          Descends tree origin
            (Step.setupFrom this { frame with cursor := frame.cursor + 1 } rest) := by
        refine inductionHypothesis others (by exact sameNode) fun begun countable => ?_
        obtain ⟨short, ahead⟩ := isLater begun countable
        rw [List.length_cons] at short
        have position : (frame.cursor + 1).toNat = frame.cursor.toNat + 1 :=
          UInt32.toNat_succ_of_lt (Nat.lt_succ_self _) (by omega)
        dsimp only
        omega
      unfold Step.setupFrom
      split
      · next initial own =>
        have pushes : tree.canPush origin.node (.expression initial .value) = true := by
          obtain ⟨entry, isEntry, rfl⟩ := List.mem_map.mp isField
          simp only [isNode, Tree.canPush, List.any_eq_true, beq_iff_eq]
          exact ⟨entry, isEntry, own⟩
        by_cases begun : origin.state = 1
        · exact .pure (.evaluates (Frame.canWait_of_setup (sameNode.trans isNode) rfl)
            (fun countable => Frame.rank_lt_of_cursor begun (isLater begun countable).2)
            ⟨sameNode, pushes⟩)
        · exact .pure (.setsOut isNode (sameNode.trans isNode) begun rfl pushes)
      · split
        · exact behind fun _ => behind fun _ => behind fun _ => behind fun _ => goOn
        · exact goOn

omit isNode in
/-- The field whose initial value is stored is there. -/
theorem storeField_found
    (tree : Tree)
    (this : ObjectId)
    (fields : List FieldDef)
    (value : Value) :
    Gives (fun _ => origin.cursor.toNat < fields.length) (fun _ => True)
      (Step.storeField tree this origin fields value) :=
  (Gives.require _ _).bind fun _ found =>
    Gives.fact (List.getElem?_eq_some_iff.mp found).1 _

/-- A step of the field values of a new instance. -/
theorem fieldSetup :
    Descends setting.tree origin (Step.fieldSetup setting origin owner incoming) := by
  refine (Gives.part _).bind fun entry isThere => behind fun activation => behind fun this => ?_
  split
  · refine behind fun value => (storeField_found setting.tree this _ value).bind fun _ inside => ?_
    refine setupFrom isNode _ _ (List.drop_subset _ _) (by rfl) fun _ countable => ?_
    have short := countable.fields owner entry isThere
    have position := UInt32.toNat_succ_of_lt inside (by simpa using short)
    rw [List.length_map] at inside
    simp only [List.length_drop, List.length_map]
    omega
  · next notBegun =>
    exact behind fun _ => setupFrom isNode _ _ (List.drop_subset _ _) rfl
      fun begun => absurd begun notBegun

end FieldSetup

/-- The step of a frame makes one of the moves of a frame. -/
theorem ofFrame
    (setting : Setting)
    (frame : Frame)
    (incoming : Option Completion) :
    Descends setting.tree frame (Step.ofFrame setting frame incoming) := by
  unfold Step.ofFrame
  split
  · next isNode => exact start isNode
  · next isNode => exact function isNode
  · next isNode => exact fieldSetup isNode
  · next isNode => exact statement isNode
  · next isNode => exact expression isNode

end Descends

end Step

end BotScript
