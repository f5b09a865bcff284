import Recordgen.Markup.Document
import Recordgen.Prototype.Sequence

/-! # Reading prototype documents

A prototype document has a root `generator_prototype` with up to four sections, which are read in a
fixed order: parameters, functions, enumerations and record sequences. Of several sections of one
name the first counts.
-/

namespace Recordgen.Prototype

open Markup (Element)

/-- The name of the root element. -/
def rootName : String :=
  "generator_prototype"

/-- Reads a parameter. An empty value is a value. -/
def readParameter (spec : Specification .raw) (element : Element) :
    Except CompileError (Specification .raw) := do
  let key ← element.required "key" "parameters"
  let some value := element.attribute? "value"
    | throw (.document (.parameterWithoutValue key))
  if spec.parameters.contains key then
    throw (duplicateKey "parameter" key "parameters")
  return { spec with parameters := spec.parameters.insert key ⟨key, value⟩ }

/-- Reads a function. -/
def readFunction (spec : Specification .raw) (element : Element) :
    Except CompileError (Specification .raw) := do
  let key ← element.required "key" "functions"
  if spec.functions.contains key then
    throw (duplicateKey "function" key "functions")
  let typeText ← element.required "type" s!"function '{key}'"
  let base := spec.components.size
  let components ← componentReader element .function typeText key {} base
  return { spec with
    functions := spec.functions.insert key ⟨base⟩
    components := spec.components ++ components }

/-- Reads an enumeration. -/
def readEnumeration (spec : Specification .raw) (element : Element) :
    Except CompileError (Specification .raw) := do
  let key ← element.required "key" "enum_sets"
  if spec.enumSets.contains key then
    throw (duplicateKey "enum set" key "enum_sets")
  let base := spec.components.size
  let components ← componentReader element .enumSet "enum_set" key {} base
  return { spec with
    enumSets := spec.enumSets.insert key ⟨base⟩
    components := spec.components ++ components }

/-- The children of the first section with the given name that `select` picks. -/
def sectionChildren (root : Element) (name : String) (select : Element → List Element) :
    List Element :=
  ((root.child? name).map select).getD []

/-- Reads a specification from the root of a document. -/
def readRoot (root : Element) : Except CompileError (Specification .raw) := do
  if root.name ≠ rootName then
    throw (.document (.wrongRoot rootName root.name))
  let spec ← (sectionChildren root "parameters" (·.childrenNamed "parameter")).foldlM
    readParameter {}
  let spec ← (sectionChildren root "functions" (·.childrenNamed "function")).foldlM
    readFunction spec
  let spec ← (sectionChildren root "enum_sets" (·.childrenNamed "enum_set")).foldlM
    readEnumeration spec
  (sectionChildren root "record_sequences" Element.children).foldlM readSequence spec

/-- Reads a specification from the text of a document. -/
def parse (text : String) : Except CompileError (Specification .raw) := do
  readRoot (← Markup.parse text)

end Recordgen.Prototype
