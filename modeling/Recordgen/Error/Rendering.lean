/-! # What can be wrong while headers are rendered

Documents as they are read give rise to few of these faults; the others speak of a specification
whose components do not have the arguments their kinds ask for.
-/

namespace Recordgen

/-- A fault found while a header is rendered. A `place` is the wording of a component. -/
inductive RenderFault where
  | notInChain (component : Nat)
  | noSize (place : String)
  | notAChainKind (kind : String)
  | unusableArgument (place key : String)
  | noArgument (place key : String)
  | wrongArgument (key place expected : String)
  | nestedOutsideChain (place : String)
  | callbackOutsideChain (place : String)
  | badCallbackName (raw place : String)
  | noTypeParameter (place parameter : String)
  | notUnderReferenceSetter (place : String)
  | notConstant (key place raw : String)
  | noEnumSet (field record : String)
  | noEstimator (sequence : String)
  /-- One callback name is used with two value types. -/
  | callbackConflict (callback record first second : String)
  deriving DecidableEq, Repr

/-- The wording of a rendering fault. -/
def RenderFault.message : RenderFault → String
  | notInChain component => s!"component#{component} is not part of the setter chain"
  | noSize place => s!"{place} lacks its size"
  | notAChainKind kind => s!"{kind} cannot be part of a setter chain"
  | unusableArgument place key => s!"{place} has no usable argument '{key}'"
  | noArgument place key => s!"{place} has no argument '{key}'"
  | wrongArgument key place expected => s!"argument '{key}' of {place} is not a {expected}"
  | nestedOutsideChain place => s!"{place} references nested components outside a setter chain"
  | callbackOutsideChain place => s!"{place} declares a callback outside a setter chain"
  | badCallbackName raw place => s!"callback name '{raw}' of {place} is not an identifier"
  | noTypeParameter place parameter => s!"{place} lacks type parameter '{parameter}'"
  | notUnderReferenceSetter place => s!"{place} must be nested under a reference setter"
  | notConstant key place raw => s!"argument '{key}' of {place} must be a constant, got '{raw}'"
  | noEnumSet field record => s!"enum field '{field}' of record '{record}' has no enum set"
  | noEstimator sequence => s!"sequence '{sequence}' has no cardinality estimator"
  | callbackConflict callback record first second =>
    s!"callback '{callback}' of record '{record}' is declared as both {first} and {second}"

end Recordgen
