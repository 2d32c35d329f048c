import BotScript.Compile.Conversion
import BotScript.Host.Registry

namespace BotScript

/-!
# Overloads

Among the candidates of a call that accept its arguments, the one with the least
total cost of conversion is chosen, and of those with equal cost the first.
-/

/-- Why a candidate does not accept the arguments. -/
inductive Mismatch where
  | tooMany
  | tooFew
  | types
  | native (code : ErrorCode)
  deriving Repr, DecidableEq, Inhabited

/-- Whether a mismatch is about types and not about the number of arguments. -/
def Mismatch.isAboutTypes : Mismatch → Bool
  | .types | .native _ => true
  | .tooMany | .tooFew => false

/-- A chosen candidate, its result type and the defaults for the arguments left out. -/
structure Overload where
  target : MethodImpl
  result : Ty
  defaults : List ExprId
  deriving Repr, DecidableEq, Inhabited

/-- A method that is visible on a class. -/
structure MethodCandidate where
  owner : ClassId
  target : MethodImpl
  visibility : Visibility
  slot : Option MethodSlot
  deriving Repr, DecidableEq, Inhabited

namespace Tree

/-- The total cost of passing arguments to parameters. -/
def argumentsCost? (tree : Tree) : List Ty → List Param → Option Nat
  | argument :: arguments, param :: params =>
      match tree.conversionCost? argument param.ty, tree.argumentsCost? arguments params with
      | some cost, some rest => some (cost + rest)
      | _, _ => none
  | _, _ => some 0

/-- The cost of calling a candidate, or why it does not accept the arguments. -/
def candidateCost
    (tree : Tree) (registry : Registry) (arguments : List Ty) (target : MethodImpl) :
    Except Mismatch (Nat × Overload) :=
  match target with
  | .user id =>
      let function := tree.function id
      if function.params.length < arguments.length then .error .tooMany
      else if arguments.length < function.requiredParams then .error .tooFew
      else
        match tree.argumentsCost? arguments function.params with
        | some cost =>
            let defaults := (function.params.drop arguments.length).filterMap (·.defaultValue)
            .ok (cost, ⟨target, function.result, defaults⟩)
        | none => .error .types
  | .native id =>
      match registry.resolve? arguments [id] with
      | some (.ok (_, result)) => .ok (0, ⟨target, result, []⟩)
      | some (.error code) => .error (.native code)
      | none => .error (.native .undefinedCall)

/-- The cheapest accepted candidate; an earlier one wins over a later one of the same cost. -/
def cheapest? : List (Except Mismatch (Nat × Overload)) → Option (Nat × Overload)
  | [] => none
  | .error _ :: others => cheapest? others
  | .ok found :: others =>
      match cheapest? others with
      | some better => if better.1 < found.1 then some better else some found
      | none => some found

/-- The error for candidates of which none accepts the arguments. -/
def mismatchCode : List Mismatch → ErrorCode
  | [.tooMany] => .tooManyParameters
  | [.tooFew] => .missingParameters
  | [.types] => .badParameter
  | [.native code] => code
  | mismatches => if mismatches.any Mismatch.isAboutTypes then .badParameter else .parameterCount

/-- The candidate that a call with the given argument types selects. -/
def resolveOverload
    (tree : Tree) (registry : Registry) (candidates : List MethodImpl) (arguments : List Ty) :
    Except ErrorCode Overload :=
  let costs := candidates.map (tree.candidateCost registry arguments)
  match cheapest? costs with
  | some (_, overload) => .ok overload
  | none =>
      .error (mismatchCode (costs.filterMap fun cost =>
        match cost with
        | .ok _ => none
        | .error mismatch => some mismatch))

/-- Add the methods of a class to those of its descendants; an override hides what it replaces. -/
def addCandidates
    (owner : ClassId) (found : List MethodCandidate) (methods : List MethodDef) :
    List MethodCandidate :=
  methods.foldl (fun found method =>
    let hidden := method.slot.isSome && found.any fun candidate => candidate.slot == method.slot
    if hidden then found
    else found ++ [⟨owner, method.implementation, method.visibility, method.slot⟩]) found

/-- The methods with a name that a class has, most derived first, without constructors. -/
def methodCandidates (tree : Tree) (id : ClassId) (name : String) : List MethodCandidate :=
  (tree.classChain id).foldl (fun found owner =>
    let entry := tree.classDef owner
    if entry.name == name then found
    else addCandidates owner found (entry.methods.filter fun method => method.name == name)) []

/-- The constructors of a class. -/
def constructors (tree : Tree) (id : ClassId) : List MethodCandidate :=
  let entry := tree.classDef id
  (entry.methods.filter fun method => method.name == entry.name).map fun method =>
    ⟨id, method.implementation, method.visibility, none⟩

end Tree

end BotScript
