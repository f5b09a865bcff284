/-! # Attributes of components

A bag of named values that keeps the order in which the names were first set. Setting a name again
replaces its value in place.
-/

namespace Recordgen

/-- A value of an attribute. -/
inductive AttributeValue where
  | text (text : String)
  | integer (value : Int)
  | flag (value : Bool)
  deriving DecidableEq, Repr

/-- Named values in order of insertion. -/
structure Attributes where
  entries : List (String × AttributeValue) := []
  deriving DecidableEq, Repr, Inhabited

namespace Attributes

/-- Replaces the value of `key` in a list of entries, or adds it at the end. -/
def setIn (key : String) (value : AttributeValue) :
    List (String × AttributeValue) → List (String × AttributeValue)
  | [] => [(key, value)]
  | entry :: rest =>
    if entry.1 = key then (key, value) :: rest else entry :: setIn key value rest

/-- Sets the value of a name. -/
def set (attributes : Attributes) (key : String) (value : AttributeValue) : Attributes :=
  ⟨setIn key value attributes.entries⟩

/-- The value of a name. -/
def get? (attributes : Attributes) (key : String) : Option AttributeValue :=
  attributes.entries.lookup key

/-- The value of a name, if it is a text. -/
def text? (attributes : Attributes) (key : String) : Option String :=
  match attributes.get? key with
  | some (.text text) => some text
  | _ => none

/-- The value of a name, if it is a number that can be a size. -/
def size? (attributes : Attributes) (key : String) : Option Nat :=
  match attributes.get? key with
  | some (.integer (.ofNat size)) => some size
  | _ => none

/-- The number of names. -/
def size (attributes : Attributes) : Nat :=
  attributes.entries.length

end Attributes

end Recordgen
