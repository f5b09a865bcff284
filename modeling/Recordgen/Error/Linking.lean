/-! # What can be wrong with the links of a specification

A link is a name that stands for a record sequence, a field, a reference, a function or an
enumeration. A name that denotes nothing is an unresolved reference; the faults below concern what
surrounds the names.
-/

namespace Recordgen

/-- What a name is expected to denote. -/
inductive LinkKind where
  | record
  | field
  | reference
  | function
  | enumSet
  deriving DecidableEq, Repr

/-- The wording of a link kind. -/
def LinkKind.name : LinkKind → String
  | record => "record"
  | field => "field"
  | reference => "reference"
  | function => "function"
  | enumSet => "enum set"

/-- The lists of a sequence that are ordered by keys. -/
inductive OrderedList where
  | fields
  | references
  | setters
  deriving DecidableEq, Repr

/-- The wording of an ordered list. -/
def OrderedList.name : OrderedList → String
  | fields => "field"
  | references => "reference"
  | setters => "setter"

/-- The order keys as messages list them, such as `[0, 2]`. -/
def orderKeyList (orders : List Nat) : String :=
  "[" ++ ", ".intercalate (orders.map Nat.repr) ++ "]"

/-- A fault in what surrounds the links. -/
inductive LinkFault where
  | noFieldArgument (place : String)
  | unboundField (place : String)
  | nestedCollection (place : String)
  /-- The order keys of a list are not `0, …, n - 1`; `orders` holds them in ascending order. -/
  | orderKeys (list : OrderedList) (sequence : String) (orders : List Nat)
  | firstField (sequence expected : String)
  deriving DecidableEq, Repr

/-- The wording of a link fault. -/
def LinkFault.message : LinkFault → String
  | noFieldArgument place => s!"{place} has no field argument"
  | unboundField place => s!"field argument of {place} is unbound"
  | nestedCollection place => s!"nested argument collection in {place}"
  | orderKeys list sequence orders =>
    s!"{list.name} order keys of sequence '{sequence}' do not form 0..{orders.length}: " ++
      orderKeyList orders
  | firstField sequence expected =>
    s!"record type of sequence '{sequence}' must start with '{expected}'"

/-- Why a field cannot have the setter that is asked of it. -/
inductive SetterFault where
  | foreignField
  | implicitField
  | derivedField
  | throughReference
  | noSetter
  | foreignChain
  deriving DecidableEq, Repr

/-- The wording of a setter fault. -/
def SetterFault.message : SetterFault → String
  | foreignField => "a field setter must target a field of its own record type"
  | implicitField => "implicit fields are assigned by the runtime"
  | derivedField => "derived fields have no stored value"
  | throughReference => "the field is reached through a reference"
  | noSetter => "no field setter is bound to the field"
  | foreignChain => "the field setter belongs to another setter chain"

end Recordgen
