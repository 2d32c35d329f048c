import BotScript.Proofs.BuildingStatements

namespace BotScript

/-!
# Passes over the text

The passes of a compilation move back in the text and change the scope, and they
declare functions.  They still keep the tree sound, and it only grows.
-/

namespace Compile

variable {α β σ : Type} {context : CompileContext} {known : NativeId → Prop} {own : Nat}
  {state : CompileState}

/-- A step of a pass keeps the tree sound, and its result meets a condition. -/
def Passes
    (context : CompileContext) (known : NativeId → Prop) (own : Nat) (state : CompileState)
    (post : CompileState → α → Prop) (step : Compile α) :
    Prop :=
  state.Ready context known own → ∀ value after, step context state = .ok (value, after) →
    after.Ready context known own ∧ state.tree.Keeps after.tree ∧ post after value

/-- A step that builds the tree is a step of a pass. -/
theorem Builds.passes
    {post middle : CompileState → α → Prop}
    {step : Compile α}
    (builds : Builds context known own state middle step)
    (holds : ∀ after value, state.Onward after → middle after value → post after value) :
    Passes context known own state post step := by
  intro ready value after runs
  obtain ⟨afterReady, onward, meets⟩ := builds ready _ _ runs
  exact ⟨afterReady, onward.tree, holds _ _ onward meets⟩

namespace Passes

variable {post : CompileState → β → Prop}

/-- A result that needs no step. -/
theorem pure
    {value : β}
    (holds : post state value) :
    Passes context known own state post (Pure.pure value) := by
  intro ready result after runs
  cases runs
  exact ⟨ready, .refl _, holds⟩

/-- A step and what follows it. -/
theorem bind
    {M : CompileState → α → Prop}
    {step : Compile α}
    {next : α → Compile β}
    (first : Passes context known own state M step)
    (rest : ∀ between value, state.tree.Keeps between.tree → M between value →
      Passes context known own between post (next value)) :
    Passes context known own state post (step >>= next) := by
  intro ready result after runs
  obtain ⟨value, between, taken, goesOn⟩ := bind_ok runs
  obtain ⟨betweenReady, keeps, holds⟩ := first ready _ _ taken
  obtain ⟨afterReady, further, last⟩ := rest between value keeps holds betweenReady _ _ goesOn
  exact ⟨afterReady, keeps.trans further, last⟩

/-- What follows a step that builds the tree. -/
theorem building
    {M : CompileState → α → Prop}
    {step : Compile α}
    {next : α → Compile β}
    (builds : Builds context known own state M step)
    (rest : ∀ between value, state.Onward between → M between value →
      Passes context known own between post (next value)) :
    Passes context known own state post (step >>= next) :=
  bind (builds.passes fun _ _ onward meets => (⟨onward, meets⟩ : _ ∧ _))
    fun between value _ meets => rest between value meets.1 meets.2

/-- A condition that says less of the result. -/
theorem weaken
    {M : CompileState → β → Prop}
    {step : Compile β}
    (passes : Passes context known own state M step)
    (holds : ∀ after value, state.tree.Keeps after.tree → M after value → post after value) :
    Passes context known own state post step := by
  intro ready result after runs
  obtain ⟨afterReady, keeps, meets⟩ := passes ready _ _ runs
  exact ⟨afterReady, keeps, holds _ _ keeps meets⟩

/-- The tree is sound. -/
theorem withReady
    {step : Compile β}
    (passes : state.Ready context known own → Passes context known own state post step) :
    Passes context known own state post step :=
  fun ready => passes ready ready

/-- What follows a step with a known result that changes nothing. -/
theorem reading
    {step : Compile α}
    {next : α → Compile β}
    {value : α}
    (runs : step context state = .ok (value, state))
    (rest : Passes context known own state post (next value)) :
    Passes context known own state post (step >>= next) := by
  intro ready result after goesOn
  obtain ⟨found, between, taken, goesOn⟩ := bind_ok goesOn
  cases runs.symm.trans taken
  exact rest ready _ _ goesOn

/-- What follows a step over tokens. -/
theorem behind
    {step : Compile α}
    {next : α → Compile β}
    [Strides step]
    (rest : ∀ value position,
      Passes context known own ⟨position, state.tree, state.scope⟩ post (next value)) :
    Passes context known own state post (step >>= next) := by
  refine building (M := fun after _ => after.tree = state.tree ∧ after.scope = state.scope)
    (Builds.strides fun _ _ _ => ⟨rfl, rfl⟩) ?_
  rintro ⟨position, tree, scope⟩ value - ⟨sameTree, sameScope⟩
  cases sameTree
  cases sameScope
  exact rest value position

/-- A step that only fails. -/
theorem ofBuilds
    {step : Compile β}
    (builds : Builds context known own state post step) :
    Passes context known own state post step :=
  builds.passes fun _ _ _ => id

/-- What follows a move in the text. -/
theorem moving
    {position : Nat}
    {next : Unit → Compile β}
    (inside : position ≤ context.tokens.size - 1)
    (rest : Passes context known own ⟨position, state.tree, state.scope⟩ post (next ())) :
    Passes context known own state post (moveTo position >>= next) := by
  intro ready result after runs
  obtain ⟨_, _, taken, runs⟩ := bind_ok runs
  cases taken
  exact rest ⟨ready.offers, ready.tree, ready.owner, inside⟩ _ _ runs

/-- What follows a change of the scope. -/
theorem scoping
    {change : Scope → Scope}
    {next : Unit → Compile β}
    (owner : ∀ owner ∈ (change state.scope).owner, owner.index < state.tree.classes.size)
    (rest :
      Passes context known own ⟨state.position, state.tree, change state.scope⟩ post (next ())) :
    Passes context known own state post (modifyScope change >>= next) := by
  intro ready result after runs
  obtain ⟨_, _, taken, runs⟩ := bind_ok runs
  cases taken
  exact rest ⟨ready.offers, ready.tree, owner, ready.inside⟩ _ _ runs

/-- The tree is replaced by a sound one that has grown out of it. -/
theorem growing
    {grown : Tree}
    {next : Unit → Compile β}
    (meets : state.Ready context known own →
      grown.Sound context known own ∧ state.tree.Grows grown)
    (rest : Passes context known own ⟨state.position, grown, state.scope⟩ post (next ())) :
    Passes context known own state post (setTree grown >>= next) := by
  intro ready result after runs
  obtain ⟨_, _, taken, runs⟩ := bind_ok runs
  cases taken
  obtain ⟨sound, grows⟩ := meets ready
  obtain ⟨afterReady, keeps, holds⟩ := rest
    ⟨ready.offers, sound, fun owner isOwner =>
      Nat.lt_of_lt_of_le (ready.owner owner isOwner) grows.classes_size, ready.inside⟩ _ _ runs
  exact ⟨afterReady, (ready.tree.keeps grows).trans keeps, holds⟩

/-- A repeated step keeps what holds of the state of the loop. -/
theorem loop
    {H : CompileState → σ → Prop}
    {step : σ → Compile (Turn σ β)}
    {start : σ}
    (starts : H state start)
    (turn : ∀ between next, state.tree.Keeps between.tree → H between next →
      Passes context known own between (Turn.Meets H post) (step next)) :
    Passes context known own state post (Compile.loop step start) := by
  have within (bound : Nat) :
      ∀ between next, state.tree.Keeps between.tree → H between next →
        Passes context known own between post (loopWithin step bound next) := by
    induction bound with
    | zero => exact fun _ _ _ _ => ofBuilds .failed
    | succ bound inductionHypothesis =>
        intro between next keeps meets
        unfold loopWithin
        refine bind (turn between next keeps meets) ?_
        rintro later (again | result) further continues
        · exact inductionHypothesis later again (keeps.trans further) continues
        · exact pure continues
  exact reading rfl (within _ state start (.refl _) starts)

/-! ## Steps for the entries of a list -/

/-- A step for every entry, which passes on what the next one starts with. -/
theorem foldlM
    {H : CompileState → β → Prop}
    {step : β → α → Compile β}
    {entries : List α}
    {value : β}
    (starts : H state value)
    (turn : ∀ between entry value, entry ∈ entries → H between value →
      Passes context known own between H (step value entry)) :
    Passes context known own state H (entries.foldlM step value) := by
  induction entries generalizing state value with
  | nil => exact pure starts
  | cons entry entries inductionHypothesis =>
      rw [List.foldlM_cons]
      refine bind (turn _ entry value List.mem_cons_self starts) fun between next _ meets => ?_
      exact inductionHypothesis meets fun later other value isOther =>
        turn later other value (List.mem_cons_of_mem entry isOther)

/-- A step for every entry, of which the results are collected. -/
theorem mapM
    {H : CompileState → List β → Prop}
    {step : α → Compile β}
    {entries : List α}
    (starts : H state [])
    (turn : ∀ between entry results, entry ∈ entries → H between results →
      Passes context known own between (fun after result => H after (results ++ [result]))
        (step entry)) :
    Passes context known own state H (entries.mapM step) := by
  suffices rest : ∀ results, H state results →
      Passes context known own state (fun after more => H after (results ++ more))
        (entries.mapM step) by
    exact rest [] starts
  clear starts
  induction entries generalizing state with
  | nil => exact fun results starts => pure (by simpa using starts)
  | cons entry entries inductionHypothesis =>
      intro results starts
      rw [List.mapM_cons]
      refine bind (turn _ entry results List.mem_cons_self starts) fun between result _ meets => ?_
      refine bind (inductionHypothesis (fun later other results isOther =>
        turn later other results (List.mem_cons_of_mem entry isOther)) _ meets) ?_
      intro after more _ meets
      rw [List.append_assoc] at meets
      exact pure meets

/-- A step for every entry, after which something holds of the entries so far. -/
theorem forM
    {H : CompileState → List α → Prop}
    {step : α → Compile PUnit}
    {entries : List α}
    (starts : H state [])
    (turn : ∀ between done entry, entry ∈ entries → H between done →
      Passes context known own between (fun after _ => H after (done ++ [entry])) (step entry)) :
    Passes context known own state (fun after _ => H after entries) (entries.forM step) := by
  suffices rest : ∀ done, H state done →
      Passes context known own state (fun after _ => H after (done ++ entries))
        (entries.forM step) by
    exact rest [] starts
  clear starts
  induction entries generalizing state with
  | nil => exact fun done starts => pure (by simpa using starts)
  | cons entry entries inductionHypothesis =>
      intro done starts
      refine bind (turn _ done entry List.mem_cons_self starts) fun between _ _ meets => ?_
      have rest := inductionHypothesis (fun later done other isOther =>
        turn later done other (List.mem_cons_of_mem entry isOther)) (done ++ [entry]) meets
      rwa [List.append_assoc] at rest

end Passes

end Compile

end BotScript
