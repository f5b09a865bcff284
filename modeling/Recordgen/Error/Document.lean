import Recordgen.Error.Literal

/-! # What can be wrong with the contents of a prototype document

These faults concern a well-formed element tree that does not describe a specification. A `place` is
the wording of where the fault was found, such as `record sequence 'order'`.
-/

namespace Recordgen

/-- A fault in the contents of a prototype. -/
inductive DocumentFault where
  | wrongRoot (expected found : String)
  | parameterWithoutValue (key : String)
  | duplicateKey (what key place : String)
  | missingElement (element place : String)
  | badDerivedFlag (field place flag : String)
  | unknownArgument (key place : String)
  | missingArgument (key kind place : String)
  | literalWithoutValue (key place : String)
  | badLiteral (key place : String) (fault : LiteralFault)
  /-- A component whose type fixes a size has a collection of another length. -/
  | wrongCollectionSize (place parameter : String) (size : Nat) (key : String) (count : Nat)
  deriving DecidableEq, Repr

/-- The wording of a document fault. -/
def DocumentFault.message : DocumentFault → String
  | wrongRoot expected found => s!"root element must be <{expected}>, found <{found}>"
  | parameterWithoutValue key => s!"missing attribute 'value' on parameter '{key}' in parameters"
  | duplicateKey what key place => s!"duplicate {what} key '{key}' in {place}"
  | missingElement element place => s!"missing <{element}> in {place}"
  | badDerivedFlag field place flag =>
    s!"field '{field}' in {place} has invalid derived flag '{flag}'"
  | unknownArgument key place => s!"unknown argument '{key}' in {place}"
  | missingArgument key kind place => s!"missing required argument '{key}' ({kind}) in {place}"
  | literalWithoutValue key place => s!"literal argument '{key}' in {place} has no value"
  | badLiteral key place fault => s!"argument '{key}' in {place}: {fault.message}"
  | wrongCollectionSize place parameter size key count =>
    s!"{place} declares {parameter} {size} but argument '{key}' has {count} items"

end Recordgen
