import Recordgen.Markup.Element
import Recordgen.Specification.Basic

/-! # Reading record types

A record type lists fields and references. Every record begins with an implicit identifier that the
document does not mention. Fields and references share one set of names.
-/

namespace Recordgen.Prototype

open Markup (Element)

/-- A key that is used twice. -/
def duplicateKey (what key place : String) : CompileError :=
  .document (.duplicateKey what key place)

/-- The identifier that every record begins with. -/
def implicitField (id : FieldId) (owner : SequenceId) : Field :=
  { id := id, owner := owner, name := implicitFieldName, type := .scalar .i64u, order := 0,
    implicit := true }

/-- Reads the flag that tells whether a field is computed. -/
def readDerived (element : Element) (name place : String) : Except CompileError Bool :=
  match (element.attribute? "derived").map Text.trim with
  | none | some "false" | some "0" => .ok false
  | some "true" | some "1" => .ok true
  | some other => .error (.document (.badDerivedFlag name place other))

/-- Reads the enumeration of a field; only a single enumeration value has one. -/
def readEnumSet (enumSets : KeyMap ComponentId) (element : Element) (type : FieldType)
    (place : String) : Except CompileError (Option String) := do
  if type.isEnum then
    let key ← element.required "enumref" place
    unless enumSets.contains key do
      throw (.unresolved .enumSet key key place)
    return some key
  else return none

/-- Reads a field element. `names` holds the names already used. -/
def readField (enumSets : KeyMap ComponentId) (place : String) (owner : SequenceId)
    (names : List String) (id : FieldId) (order : Nat) (element : Element) :
    Except CompileError Field := do
  let name ← element.required "name" place
  if name ∈ names then throw (duplicateKey "field" name place)
  let type ← FieldType.parse (← element.required "type" place)
  let derived ← readDerived element name place
  let enumSet ← readEnumSet enumSets element type place
  return { id := id, owner := owner, name := name, type := type, order := order,
           derived := derived, enumSet := enumSet }

/-- Reads field elements behind the fields already read. The fields are numbered from `base` on. -/
def readFields (enumSets : KeyMap ComponentId) (place : String) (owner : SequenceId) (base : Nat) :
    List Field → List Element → Except CompileError (List Field)
  | fields, [] => .ok fields
  | fields, element :: rest => do
    let field ← readField enumSets place owner (fields.map Field.name)
      ⟨base + fields.length⟩ fields.length element
    readFields enumSets place owner base (fields ++ [field]) rest

/-- Reads a reference element. `names` holds the names already used. -/
def readReference (place : String) (owner : SequenceId) (names : List String) (id : ReferenceId)
    (order : Nat) (element : Element) : Except CompileError (Reference .raw) := do
  let name ← element.required "name" place
  if name ∈ names then throw (duplicateKey "reference" name place)
  let target ← element.required "type" place
  return { id := id, owner := owner, name := name, order := order, target := target }

/-- Reads reference elements behind the references already read, which are numbered from `base`
on. -/
def readReferences (place : String) (owner : SequenceId) (fieldNames : List String) (base : Nat) :
    List (Reference .raw) → List Element → Except CompileError (List (Reference .raw))
  | references, [] => .ok references
  | references, element :: rest => do
    let reference ← readReference place owner (fieldNames ++ references.map Reference.name)
      ⟨base + references.length⟩ references.length element
    readReferences place owner fieldNames base (references ++ [reference]) rest

/-- Reads a record type: its fields, numbered from `fieldBase` on, and its references, numbered from
`referenceBase` on. -/
def readRecordType (enumSets : KeyMap ComponentId) (key : String) (owner : SequenceId)
    (fieldBase referenceBase : Nat) (element : Element) :
    Except CompileError (List Field × List (Reference .raw)) := do
  let place := s!"record type '{key}'"
  let fields ← readFields enumSets place owner fieldBase [implicitField ⟨fieldBase⟩ owner]
    (element.childrenNamed "field")
  let references ← readReferences place owner (fields.map Field.name) referenceBase []
    (element.childrenNamed "reference")
  return (fields, references)

end Recordgen.Prototype
