import BotScript.Host.Standard
import BotScript.Proofs.BuildingPrograms

namespace BotScript

/-!
# The choice among overloads

A candidate is viable if it takes as many arguments as a call gives, where
parameters with defaults may be left out, and if every argument can be converted.
A call selects the first of the cheapest viable candidates.
-/

/-- A parameter behind one with a default has a default as well. -/
def Param.DefaultsLast (params : List Param) : Prop :=
  params.Pairwise fun first second => first.defaultValue.isSome → second.defaultValue.isSome

/-- Only the last parameters of each function have defaults. -/
def Tree.DefaultsLast (tree : Tree) : Prop :=
  ∀ function ∈ tree.functions, Param.DefaultsLast function.params

/-- A function can be called with some arguments if all parameters left out have defaults. -/
theorem FunctionDef.requiredParams_le_iff
    {function : FunctionDef}
    (ordered : Param.DefaultsLast function.params)
    (count : Nat) :
    function.requiredParams ≤ count ↔
      ∀ param ∈ function.params.drop count, param.defaultValue.isSome := by
  unfold requiredParams
  generalize function.params = params at ordered ⊢
  induction params generalizing count with
  | nil => simp
  | cons first others inductionHypothesis =>
      obtain ⟨behind, ordered⟩ := List.pairwise_cons.mp ordered
      cases isDefault : first.defaultValue with
      | some id =>
          have all : ∀ param ∈ first :: others, param.defaultValue.isSome :=
            List.forall_mem_cons.mpr ⟨by simp [isDefault], fun param isOther =>
              behind param isOther (by simp [isDefault])⟩
          simp only [List.takeWhile_cons, isDefault, Option.isNone_some, Bool.false_eq_true,
            if_false, List.length_nil, Nat.zero_le, true_iff]
          exact fun param isOmitted => all param (List.mem_of_mem_drop isOmitted)
      | none =>
          cases count with
          | zero => simp [isDefault]
          | succ count =>
              simpa [List.takeWhile_cons, isDefault] using inductionHypothesis count ordered

/-- The defaults of parameters that all have one are their defaults in order. -/
theorem Param.defaults_eq_map
    {params : List Param}
    (haveDefaults : ∀ param ∈ params, param.defaultValue.isSome) :
    params.map (·.defaultValue) = (params.filterMap (·.defaultValue)).map some := by
  induction params with
  | nil => rfl
  | cons param params inductionHypothesis =>
      obtain ⟨isSome, haveDefaults⟩ := List.forall_mem_cons.mp haveDefaults
      obtain ⟨id, isDefault⟩ := Option.isSome_iff_exists.mp isSome
      rw [List.filterMap_cons_some isDefault, List.map_cons, List.map_cons, isDefault,
        inductionHypothesis haveDefaults]

/-- The error for a single candidate that is not viable. -/
def Mismatch.code : Mismatch → ErrorCode
  | .tooMany => .tooManyParameters
  | .tooFew => .missingParameters
  | .types => .badParameter
  | .native code => code

namespace Tree

section Candidates

variable (tree : Tree) (registry : Registry) (arguments : List Ty)

/-- The total cost of converting arguments to the types of parameters. -/
def passingCost (params : List Param) : Nat :=
  ((arguments.zip params).map fun pair => (tree.conversionCost? pair.1 pair.2.ty).getD 0).sum

/-- Every argument can be converted to the type of its parameter. -/
def Convertible (params : List Param) : Prop :=
  ∀ pair ∈ arguments.zip params, tree.isAssignable pair.1 pair.2.ty

/-- What a viable candidate offers to a call, and what the conversions cost. -/
inductive Offers : MethodImpl → Nat → Overload → Prop where
  | user
      {id : FuncId}
      {defaults : List ExprId} :
      arguments.length ≤ (tree.function id).params.length →
      ((tree.function id).params.drop arguments.length).map (·.defaultValue) =
        defaults.map some →
      tree.Convertible arguments (tree.function id).params →
      Offers (.user id) (tree.passingCost arguments (tree.function id).params)
        ⟨.user id, (tree.function id).result, defaults⟩
  | native
      {id : NativeId}
      {native : Native}
      {result : Ty} :
      registry.native? id = some native →
      native.check arguments = .ok result →
      Offers (.native id) 0 ⟨.native id, result, []⟩

/-- Why a candidate is not viable. -/
inductive Refuses : MethodImpl → Mismatch → Prop where
  | tooMany
      {id : FuncId} :
      (tree.function id).params.length < arguments.length →
      Refuses (.user id) .tooMany
  | tooFew
      {id : FuncId}
      {param : Param} :
      arguments.length ≤ (tree.function id).params.length →
      param ∈ (tree.function id).params.drop arguments.length →
      param.defaultValue = none →
      Refuses (.user id) .tooFew
  | types
      {id : FuncId} :
      arguments.length ≤ (tree.function id).params.length →
      (∀ param ∈ (tree.function id).params.drop arguments.length, param.defaultValue.isSome) →
      ¬ tree.Convertible arguments (tree.function id).params →
      Refuses (.user id) .types
  | native
      {id : NativeId}
      {native : Native}
      {code : ErrorCode} :
      registry.native? id = some native →
      native.check arguments = .error code →
      Refuses (.native id) (.native code)
  | missing
      {id : NativeId} :
      registry.native? id = none →
      Refuses (.native id) (.native .undefinedCall)

/-- A candidate accepts the arguments. -/
def Viable (target : MethodImpl) : Prop :=
  ∃ cost overload, tree.Offers registry arguments target cost overload

/--
The first of the cheapest viable candidates: those in front of it cost more, and
those behind it do not cost less.
-/
def Selects (candidates : List MethodImpl) (overload : Overload) : Prop :=
  ∃ before target after cost,
    candidates = before ++ target :: after ∧
      tree.Offers registry arguments target cost overload ∧
      (∀ other ∈ before, ∀ price offered,
        tree.Offers registry arguments other price offered → cost < price) ∧
      ∀ other ∈ after, ∀ price offered,
        tree.Offers registry arguments other price offered → cost ≤ price

end Candidates

variable {tree : Tree} {registry : Registry} {arguments : List Ty}

/-! ## The cost of a candidate -/

/-- Arguments have a cost if all of them can be converted, and it is the total one. -/
theorem argumentsCost?_eq_some_iff
    {params : List Param}
    {cost : Nat} :
    tree.argumentsCost? arguments params = some cost ↔
      tree.Convertible arguments params ∧ cost = tree.passingCost arguments params := by
  induction arguments generalizing params cost with
  | nil => simp [argumentsCost?, Convertible, passingCost, @eq_comm _ 0]
  | cons argument arguments inductionHypothesis =>
      cases params with
      | nil => simp [argumentsCost?, Convertible, passingCost, @eq_comm _ 0]
      | cons param params =>
          have step :
              tree.Convertible (argument :: arguments) (param :: params) ↔
                tree.isAssignable argument param.ty ∧ tree.Convertible arguments params := by
            simp [Convertible]
          have total :
              tree.passingCost (argument :: arguments) (param :: params) =
                (tree.conversionCost? argument param.ty).getD 0 +
                  tree.passingCost arguments params := by
            simp [passingCost]
          rw [step, total, argumentsCost?, isAssignable]
          cases first : tree.conversionCost? argument param.ty with
          | none => simp
          | some price =>
              cases rest : tree.argumentsCost? arguments params with
              | none =>
                  have notAll : ¬ tree.Convertible arguments params := fun all =>
                    Option.some_ne_none _
                      ((inductionHypothesis.mpr ⟨all, rfl⟩).symm.trans rest)
                  simp [notAll]
              | some others =>
                  obtain ⟨all, rfl⟩ := inductionHypothesis.mp rest
                  simp [all, eq_comm]

/-- Arguments without a cost cannot all be converted. -/
theorem argumentsCost?_eq_none_iff {params : List Param} :
    tree.argumentsCost? arguments params = none ↔ ¬ tree.Convertible arguments params := by
  rw [Option.eq_none_iff_forall_ne_some]
  simp [argumentsCost?_eq_some_iff]

variable (ordered : tree.DefaultsLast)

include ordered

/-- The parameters of each function of the tree have their defaults last. -/
theorem DefaultsLast.function
    (id : FuncId) :
    Param.DefaultsLast (tree.function id).params := by
  unfold Tree.function Tree.function?
  cases found : tree.functions[id.index]? with
  | none => exact .nil
  | some function => exact ordered function (Array.mem_of_getElem? found)

/-- What a viable candidate offers is what its cost is computed with. -/
theorem Offers.candidateCost
    {target : MethodImpl}
    {cost : Nat}
    {overload : Overload}
    (offers : tree.Offers registry arguments target cost overload) :
    tree.candidateCost registry arguments target = .ok (cost, overload) := by
  cases offers with
  | native found accepts =>
      simp [Tree.candidateCost, Registry.resolve?, found, accepts]
  | @user id defaults fewEnough isDefaults convertible =>
      have haveDefaults :
          ∀ param ∈ (tree.function id).params.drop arguments.length,
            param.defaultValue.isSome := by
        intro param isOmitted
        have isThere := List.mem_map_of_mem (f := (·.defaultValue)) isOmitted
        rw [isDefaults] at isThere
        obtain ⟨_, -, isDefault⟩ := List.mem_map.mp isThere
        rw [← isDefault]
        rfl
      have enough := (FunctionDef.requiredParams_le_iff (ordered.function id) _).mpr haveDefaults
      have same : ((tree.function id).params.drop arguments.length).filterMap (·.defaultValue) =
          defaults := by
        rw [Param.defaults_eq_map haveDefaults] at isDefaults
        exact List.map_injective_iff.mpr (Option.some_injective _) isDefaults
      unfold Tree.candidateCost
      dsimp only
      rw [if_neg (Nat.not_lt.mpr fewEnough), if_neg (Nat.not_lt.mpr enough),
        argumentsCost?_eq_some_iff.mpr ⟨convertible, rfl⟩]
      simp [same]

/-- Why a candidate is not viable is why it has no cost. -/
theorem Refuses.candidateCost
    {target : MethodImpl}
    {mismatch : Mismatch}
    (refuses : tree.Refuses registry arguments target mismatch) :
    tree.candidateCost registry arguments target = .error mismatch := by
  cases refuses with
  | native found rejects => simp [Tree.candidateCost, Registry.resolve?, found, rejects]
  | missing notFound => simp [Tree.candidateCost, Registry.resolve?, notFound]
  | tooMany tooMany => exact if_pos tooMany
  | @tooFew id param fewEnough isOmitted noDefault =>
      have tooFew : arguments.length < (tree.function id).requiredParams := by
        refine Nat.lt_of_not_le fun enough => ?_
        have haveDefaults := (FunctionDef.requiredParams_le_iff (ordered.function id) _).mp enough
        simpa [noDefault] using haveDefaults param isOmitted
      unfold Tree.candidateCost
      dsimp only
      rw [if_neg (Nat.not_lt.mpr fewEnough), if_pos tooFew]
  | @types id fewEnough haveDefaults notConvertible =>
      have enough := (FunctionDef.requiredParams_le_iff (ordered.function id) _).mpr haveDefaults
      unfold Tree.candidateCost
      dsimp only
      rw [if_neg (Nat.not_lt.mpr fewEnough), if_neg (Nat.not_lt.mpr enough),
        argumentsCost?_eq_none_iff.mpr notConvertible]

omit ordered in
/-- A candidate is viable, or there is a reason why it is not. -/
theorem offers_or_refuses
    (tree : Tree)
    (registry : Registry)
    (arguments : List Ty)
    (target : MethodImpl) :
    tree.Viable registry arguments target ∨
      ∃ mismatch, tree.Refuses registry arguments target mismatch := by
  cases target with
  | native id =>
      cases found : registry.native? id with
      | none => exact .inr ⟨_, .missing found⟩
      | some native =>
          cases checked : native.check arguments with
          | ok result => exact .inl ⟨_, _, .native found checked⟩
          | error code => exact .inr ⟨_, .native found checked⟩
  | user id =>
      by_cases fewEnough : arguments.length ≤ (tree.function id).params.length
      · by_cases haveDefaults :
            ∀ param ∈ (tree.function id).params.drop arguments.length, param.defaultValue.isSome
        · by_cases convertible : tree.Convertible arguments (tree.function id).params
          · exact .inl ⟨_, _, .user fewEnough (Param.defaults_eq_map haveDefaults) convertible⟩
          · exact .inr ⟨_, .types fewEnough haveDefaults convertible⟩
        · push Not at haveDefaults
          obtain ⟨param, isOmitted, noDefault⟩ := haveDefaults
          exact .inr ⟨_, .tooFew fewEnough isOmitted (by simpa using noDefault)⟩
      · exact .inr ⟨_, .tooMany (Nat.lt_of_not_le fewEnough)⟩

/-- A candidate has a cost exactly if it is viable. -/
theorem candidateCost_eq_ok_iff
    {target : MethodImpl}
    {cost : Nat}
    {overload : Overload} :
    tree.candidateCost registry arguments target = .ok (cost, overload) ↔
      tree.Offers registry arguments target cost overload := by
  refine ⟨fun isCost => ?_, Offers.candidateCost ordered⟩
  obtain ⟨price, offered, offers⟩ | ⟨mismatch, refuses⟩ :=
    offers_or_refuses tree registry arguments target
  · cases isCost.symm.trans (offers.candidateCost ordered)
    exact offers
  · cases isCost.symm.trans (refuses.candidateCost ordered)

/-- A candidate has no cost exactly if there is a reason against it. -/
theorem candidateCost_eq_error_iff
    {target : MethodImpl}
    {mismatch : Mismatch} :
    tree.candidateCost registry arguments target = .error mismatch ↔
      tree.Refuses registry arguments target mismatch := by
  refine ⟨fun isError => ?_, Refuses.candidateCost ordered⟩
  obtain ⟨cost, overload, offers⟩ | ⟨reason, refuses⟩ :=
    offers_or_refuses tree registry arguments target
  · cases isError.symm.trans (offers.candidateCost ordered)
  · cases isError.symm.trans (refuses.candidateCost ordered)
    exact refuses

/-! ## The cheapest of several costs -/

variable {costs others : List (Except Mismatch (Nat × Overload))} {found : Nat × Overload}

omit ordered in
/-- No cost is the cheapest one if there is none. -/
theorem cheapest?_eq_none_iff :
    cheapest? costs = none ↔ ∀ found, .ok found ∉ costs := by
  induction costs with
  | nil => simp [cheapest?]
  | cons first others inductionHypothesis =>
      cases first with
      | error mismatch => simpa [cheapest?] using inductionHypothesis
      | ok offer =>
          have isThere : ¬ ∀ found, Except.ok found ∉ Except.ok offer :: others := fun missing =>
            missing offer List.mem_cons_self
          simp only [isThere, iff_false]
          unfold cheapest?
          split
          · split <;> exact Option.some_ne_none _
          · exact Option.some_ne_none _

omit ordered in
/-- The cheapest cost is less than all in front of it, and not more than any behind it. -/
theorem cheapest?_eq_some_iff :
    cheapest? costs = some found ↔
      ∃ before after, costs = before ++ .ok found :: after ∧
        (∀ other, .ok other ∈ before → found.1 < other.1) ∧
        ∀ other, .ok other ∈ after → found.1 ≤ other.1 := by
  constructor
  · intro isCheapest
    induction costs generalizing found with
    | nil => cases isCheapest
    | cons first others inductionHypothesis =>
        cases first with
        | error mismatch =>
            obtain ⟨before, after, rfl, less, atMost⟩ := inductionHypothesis isCheapest
            exact ⟨.error mismatch :: before, after, rfl, by simpa using less, atMost⟩
        | ok offer =>
            unfold cheapest? at isCheapest
            split at isCheapest
            · next better isBetter =>
                obtain ⟨before, after, rfl, less, atMost⟩ := inductionHypothesis isBetter
                split at isCheapest
                · next cheaper =>
                    cases isCheapest
                    refine ⟨.ok offer :: before, after, rfl, fun other isBefore => ?_, atMost⟩
                    obtain isFirst | isBefore := List.mem_cons.mp isBefore
                    · cases isFirst
                      exact cheaper
                    · exact less other isBefore
                · next notCheaper =>
                    cases isCheapest
                    refine ⟨[], _, rfl, nofun, fun other isOther => ?_⟩
                    have least : better.1 ≤ other.1 := by
                      obtain isBefore | isOther := List.mem_append.mp isOther
                      · exact Nat.le_of_lt (less other isBefore)
                      · obtain isIt | isAfter := List.mem_cons.mp isOther
                        · cases isIt
                          exact Nat.le_refl _
                        · exact atMost other isAfter
                    exact Nat.le_trans (Nat.not_lt.mp notCheaper) least
            · next isNone =>
                cases isCheapest
                exact ⟨[], others, rfl, nofun, fun other isOther =>
                  absurd isOther (cheapest?_eq_none_iff.mp isNone other)⟩
  · rintro ⟨before, after, rfl, less, atMost⟩
    induction before with
    | nil =>
        rw [List.nil_append, cheapest?]
        split
        · next better isBetter =>
            exact if_neg (Nat.not_lt.mpr (atMost better (cheapest?_mem isBetter)))
        · rfl
    | cons first before inductionHypothesis =>
        have rest := inductionHypothesis fun other isBefore =>
          less other (List.mem_cons_of_mem _ isBefore)
        cases first with
        | error mismatch => exact rest
        | ok offer =>
            simp only [List.cons_append, cheapest?, rest]
            exact if_pos (less offer List.mem_cons_self)

omit ordered in
/-- Candidates without a cost do not change which one is the cheapest. -/
theorem cheapest?_append_skips
    {extra : List (Except Mismatch (Nat × Overload))}
    (noCost : ∀ found, .ok found ∉ extra)
    (before after : List (Except Mismatch (Nat × Overload))) :
    cheapest? (before ++ extra ++ after) = cheapest? (before ++ after) := by
  induction before with
  | nil =>
      induction extra with
      | nil => rfl
      | cons first extra inductionHypothesis =>
          cases first with
          | error mismatch =>
              exact inductionHypothesis fun found isThere =>
                noCost found (List.mem_cons_of_mem _ isThere)
          | ok offer => exact absurd List.mem_cons_self (noCost offer)
  | cons first before inductionHypothesis =>
      cases first with
      | error mismatch => exact inductionHypothesis
      | ok offer =>
          simp only [List.append_assoc, List.cons_append, cheapest?] at inductionHypothesis ⊢
          rw [inductionHypothesis]

/-! ## The choice -/

variable {candidates : List MethodImpl}

/-- A candidate is selected exactly if it is the first of the cheapest viable ones. -/
theorem resolveOverload_eq_ok_iff
    {overload : Overload} :
    tree.resolveOverload registry candidates arguments = .ok overload ↔
      tree.Selects registry arguments candidates overload := by
  have chosen :
      tree.resolveOverload registry candidates arguments = .ok overload ↔
        ∃ cost, cheapest? (candidates.map (tree.candidateCost registry arguments)) =
          some (cost, overload) := by
    unfold resolveOverload
    dsimp only
    split
    · next cost found isCheapest => simp [isCheapest]
    · next isNone => simp [isNone]
  rw [chosen]
  simp only [cheapest?_eq_some_iff, List.map_eq_append_iff, List.map_eq_cons_iff]
  constructor
  · rintro ⟨cost, _, _, ⟨before, _, rfl, rfl, target, after, rfl, isCost, rfl⟩, less, atMost⟩
    refine ⟨before, target, after, cost, rfl, (candidateCost_eq_ok_iff ordered).mp isCost,
      fun other isOther price offered offers => ?_, fun other isOther price offered offers => ?_⟩
    · exact less (price, offered)
        (List.mem_map.mpr ⟨other, isOther, offers.candidateCost ordered⟩)
    · exact atMost (price, offered)
        (List.mem_map.mpr ⟨other, isOther, offers.candidateCost ordered⟩)
  · rintro ⟨before, target, after, cost, rfl, offers, less, atMost⟩
    refine ⟨cost, _, _, ⟨before, _, rfl, rfl, target, after, rfl,
      offers.candidateCost ordered, rfl⟩, fun other isOther => ?_, fun other isOther => ?_⟩
    · obtain ⟨target, isBefore, isCost⟩ := List.mem_map.mp isOther
      exact less target isBefore _ _ ((candidateCost_eq_ok_iff ordered).mp isCost)
    · obtain ⟨target, isAfter, isCost⟩ := List.mem_map.mp isOther
      exact atMost target isAfter _ _ ((candidateCost_eq_ok_iff ordered).mp isCost)

/-- No cost is there if no candidate is viable. -/
theorem cost_notMem
    (noneViable : ∀ target ∈ candidates, ¬ tree.Viable registry arguments target) :
    ∀ found, .ok found ∉ candidates.map (tree.candidateCost registry arguments) := by
  rintro ⟨cost, overload⟩ isThere
  obtain ⟨target, isCandidate, isCost⟩ := List.mem_map.mp isThere
  exact noneViable target isCandidate ⟨cost, overload, (candidateCost_eq_ok_iff ordered).mp isCost⟩

/-- A reason against a candidate is the only one. -/
theorem Refuses.unique
    {target : MethodImpl}
    {mismatch other : Mismatch}
    (refuses : tree.Refuses registry arguments target mismatch)
    (refusesToo : tree.Refuses registry arguments target other) :
    other = mismatch := by
  have same := (refusesToo.candidateCost ordered).symm.trans (refuses.candidateCost ordered)
  cases same
  rfl

/-- A candidate against which there is a reason is not viable. -/
theorem Refuses.not_viable
    {target : MethodImpl}
    {mismatch : Mismatch}
    (refuses : tree.Refuses registry arguments target mismatch) :
    ¬ tree.Viable registry arguments target := by
  rintro ⟨cost, overload, offers⟩
  cases (offers.candidateCost ordered).symm.trans (refuses.candidateCost ordered)

/-- If no candidate is viable, the error is that of the reasons against all of them. -/
theorem resolveOverload_eq_error
    (noneViable : ∀ target ∈ candidates, ¬ tree.Viable registry arguments target) :
    ∃ mismatches, mismatches.length = candidates.length ∧
      (∀ mismatch, mismatch ∈ mismatches ↔
        ∃ target ∈ candidates, tree.Refuses registry arguments target mismatch) ∧
      tree.resolveOverload registry candidates arguments = .error (mismatchCode mismatches) := by
  have isNone := cheapest?_eq_none_iff.mpr (cost_notMem ordered noneViable)
  unfold resolveOverload
  dsimp only
  rw [isNone]
  refine ⟨_, ?_, fun mismatch => ?_, rfl⟩
  · refine (List.filterMap_length_eq_length.mpr fun cost isCost => ?_).trans (List.length_map _)
    obtain ⟨target, isCandidate, rfl⟩ := List.mem_map.mp isCost
    obtain ⟨reason, refuses⟩ :=
      (offers_or_refuses _ _ _ target).resolve_left (noneViable target isCandidate)
    rw [refuses.candidateCost ordered]
    rfl
  · rw [List.mem_filterMap]
    constructor
    · rintro ⟨cost, isCost, isReason⟩
      obtain ⟨target, isCandidate, rfl⟩ := List.mem_map.mp isCost
      refine ⟨target, isCandidate, (candidateCost_eq_error_iff ordered).mp ?_⟩
      cases isError : tree.candidateCost registry arguments target with
      | ok offer =>
          rw [isError] at isReason
          cases isReason
      | error reason =>
          rw [isError] at isReason
          cases isReason
          rfl
    · rintro ⟨target, isCandidate, refuses⟩
      exact ⟨_, List.mem_map.mpr ⟨target, isCandidate, refuses.candidateCost ordered⟩, rfl⟩

omit ordered in
/-- How a call finds its target among candidates. -/
structure Resolves
    (tree : Tree) (registry : Registry) (candidates : List MethodImpl) (arguments : List Ty) :
    Prop where
  /-- A candidate is found exactly if one is viable. -/
  found :
    (∃ overload, tree.resolveOverload registry candidates arguments = .ok overload) ↔
      ∃ target ∈ candidates, tree.Viable registry arguments target
  /-- The first of the cheapest viable candidates is found. -/
  cheapest :
    ∀ overload, tree.resolveOverload registry candidates arguments = .ok overload ↔
      tree.Selects registry arguments candidates overload
  /-- Behind the arguments stand the defaults of the parameters left out, so that none is missing. -/
  complete :
    ∀ overload id, tree.resolveOverload registry candidates arguments = .ok overload →
      overload.target = .user id →
        ((tree.function id).params.drop arguments.length).map (·.defaultValue) =
            overload.defaults.map some ∧
          arguments.length + overload.defaults.length = (tree.function id).params.length
  /-- Candidates that are not viable make no difference to what is found. -/
  stable :
    ∀ before others after, candidates = before ++ after →
      (∀ target ∈ others, ¬ tree.Viable registry arguments target) →
        (tree.resolveOverload registry (before ++ others ++ after) arguments).toOption =
          (tree.resolveOverload registry candidates arguments).toOption
  /-- The error for a single candidate tells the reason against it. -/
  single :
    ∀ target mismatch, candidates = [target] →
      tree.Refuses registry arguments target mismatch →
        tree.resolveOverload registry candidates arguments = .error mismatch.code
  /-- The error for several candidates tells whether any reason is about types. -/
  several :
    candidates.length ≠ 1 → (∀ target ∈ candidates, ¬ tree.Viable registry arguments target) →
      ((∃ target ∈ candidates, ∃ mismatch, tree.Refuses registry arguments target mismatch ∧
          mismatch.isAboutTypes) →
        tree.resolveOverload registry candidates arguments = .error .badParameter) ∧
      ((∀ target ∈ candidates, ∀ mismatch, tree.Refuses registry arguments target mismatch →
          ¬ mismatch.isAboutTypes) →
        tree.resolveOverload registry candidates arguments = .error .parameterCount)

omit ordered in
/-- The error for other than one candidate. -/
theorem mismatchCode_of_length_ne_one
    {mismatches : List Mismatch}
    (notSingle : mismatches.length ≠ 1) :
    mismatchCode mismatches =
      if mismatches.any Mismatch.isAboutTypes then .badParameter else .parameterCount := by
  match mismatches with
  | [] => rfl
  | [_] => exact absurd rfl notSingle
  | first :: second :: others => cases first <;> rfl

/-- A call finds the first of the cheapest viable candidates. -/
theorem DefaultsLast.resolves
    (registry : Registry)
    (candidates : List MethodImpl)
    (arguments : List Ty) :
    tree.Resolves registry candidates arguments where
  found := by
    constructor
    · rintro ⟨overload, resolved⟩
      obtain ⟨before, target, after, cost, rfl, offers, -⟩ :=
        (resolveOverload_eq_ok_iff ordered).mp resolved
      exact ⟨target, by simp, cost, overload, offers⟩
    · rintro ⟨target, isCandidate, viable⟩
      obtain ⟨cost, overload, offers⟩ := viable
      have isCost := List.mem_map.mpr ⟨target, isCandidate, offers.candidateCost ordered⟩
      obtain ⟨best, isCheapest⟩ := Option.ne_none_iff_exists'.mp fun isNone =>
        cheapest?_eq_none_iff.mp isNone _ isCost
      exact ⟨best.2, by simp [resolveOverload, isCheapest]⟩
  cheapest overload := resolveOverload_eq_ok_iff ordered
  complete overload id resolved isUser := by
    obtain ⟨before, target, after, cost, -, offers, -⟩ :=
      (resolveOverload_eq_ok_iff ordered).mp resolved
    cases offers with
    | native => cases isUser
    | user fewEnough isDefaults convertible =>
        cases isUser
        refine ⟨isDefaults, ?_⟩
        have length := congrArg List.length isDefaults
        simp only [List.length_map, List.length_drop] at length
        rw [← length]
        omega
  stable before others after := by
    rintro rfl noneViable
    have skips := cheapest?_append_skips (cost_notMem ordered noneViable)
      (before.map (tree.candidateCost registry arguments))
      (after.map (tree.candidateCost registry arguments))
    simp only [← List.map_append] at skips
    simp only [resolveOverload, skips]
    split <;> rfl
  single target mismatch := by
    rintro rfl refuses
    have noneViable : ∀ other ∈ [target], ¬ tree.Viable registry arguments other :=
      List.forall_mem_singleton.mpr (refuses.not_viable ordered)
    obtain ⟨mismatches, length, reasons, isError⟩ := resolveOverload_eq_error ordered noneViable
    have isThere := (reasons mismatch).mpr ⟨target, List.mem_singleton_self _, refuses⟩
    obtain ⟨reason, rfl⟩ := List.length_eq_one_iff.mp length
    rw [isError, ← List.mem_singleton.mp isThere]
    cases mismatch <;> rfl
  several notSingle noneViable := by
    obtain ⟨mismatches, length, reasons, isError⟩ := resolveOverload_eq_error ordered noneViable
    rw [isError, mismatchCode_of_length_ne_one (length ▸ notSingle)]
    refine ⟨fun ⟨target, isCandidate, mismatch, refuses, isAboutTypes⟩ => ?_, fun aboutCounts => ?_⟩
    · have isThere := (reasons mismatch).mpr ⟨target, isCandidate, refuses⟩
      exact congrArg _ (if_pos (List.any_eq_true.mpr ⟨mismatch, isThere, isAboutTypes⟩))
    · refine congrArg _ (if_neg fun isAboutTypes => ?_)
      obtain ⟨mismatch, isThere, isAboutTypes⟩ := List.any_eq_true.mp isAboutTypes
      obtain ⟨target, isCandidate, refuses⟩ := (reasons mismatch).mp isThere
      exact aboutCounts target isCandidate mismatch refuses isAboutTypes

end Tree

/-! ## Compiled programs -/

end BotScript
