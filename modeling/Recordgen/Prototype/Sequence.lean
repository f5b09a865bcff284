import Recordgen.Prototype.Component
import Recordgen.Prototype.Record

/-! # Reading record sequences

A random sequence has a record type, a setter chain, a cardinality estimator and, if the document
says so, an output format and an iterator. Of a sequence of another kind only the record type is
read.
-/

namespace Recordgen.Prototype

open Markup (Element)

/-- Reads a component that belongs to a sequence and stands under a fixed key. -/
def readOwned (sequence : SequenceId) (place : String) (category : Category) (base : Nat)
    (element : Element) : Except CompileError (List (Component .raw)) := do
  let typeText ← element.required "type" place
  componentReader element category typeText category.name { owner := some sequence } base

/-- Reads a component that belongs to a sequence, if the sequence has one. -/
def readOptional (sequence : SequenceId) (place : String) (category : Category) (base : Nat)
    (element : Element) : Except CompileError (Option ComponentId × List (Component .raw)) :=
  match element.child? category.name with
  | none => .ok (none, [])
  | some child => do
    return (some ⟨base⟩, ← readOwned sequence place category base child)

/-- A setter chain under construction. -/
structure ChainRead where
  keys : List String := []
  setters : List ComponentId := []
  components : List (Component .raw) := []

/-- Reads a setter behind those already read, whose components are numbered from `base` on. -/
def readSetter (sequence : SequenceId) (place : String) (base : Nat) (chain : ChainRead)
    (element : Element) : Except CompileError ChainRead := do
  let key ← element.required "key" place
  if key ∈ chain.keys then throw (duplicateKey "setter" key place)
  let typeText ← element.required "type" place
  let id := base + chain.components.length
  let components ← componentReader element .setter typeText key
    { owner := some sequence, order := chain.setters.length } id
  return ⟨chain.keys ++ [key], chain.setters ++ [⟨id⟩], chain.components ++ components⟩

/-- Reads a setter chain. -/
def readChain (sequence : SequenceId) (place : String) (base : Nat) (element : Element) :
    Except CompileError ChainRead :=
  match element.child? "setter_chain" with
  | none => .ok {}
  | some chain => (chain.childrenNamed "setter").foldlM (readSetter sequence place base) {}

/-- Adds a sequence with its record type to a specification. -/
def addSequence (spec : Specification .raw) (sequence : RecordSequence) (fields : List Field)
    (references : List (Reference .raw)) (components : List (Component .raw)) :
    Specification .raw :=
  { spec with
    sequences := spec.sequences.push
      { sequence with
        fields := fields.map Field.id
        references := references.map Reference.id }
    fields := spec.fields ++ fields
    references := spec.references ++ references
    components := spec.components ++ components }

/-- Reads the parts of a random sequence that its record type does not cover. -/
def readRandomParts (spec : Specification .raw) (sequence : RecordSequence) (place : String)
    (element : Element) : Except CompileError (RecordSequence × List (Component .raw)) := do
  let id := sequence.id
  let base := spec.components.size
  let (format, formatRead) ← readOptional id place .outputFormat base element
  let base := base + formatRead.length
  let chain ← readChain id place base element
  let base := base + chain.components.length
  let some estimatorElement := element.child? "cardinality_estimator"
    | throw (.document (.missingElement "cardinality_estimator" place))
  let estimatorRead ← readOwned id place .cardinalityEstimator base estimatorElement
  let estimator : ComponentId := ⟨base⟩
  let base := base + estimatorRead.length
  let (sequenceIterator, iteratorRead) ← readOptional id place .sequenceIterator base element
  return (
    { sequence with
      outputFormat := format
      setters := chain.setters
      estimator := some estimator
      sequenceIterator := sequenceIterator },
    formatRead ++ chain.components ++ estimatorRead ++ iteratorRead)

/-- Reads a sequence element into a specification. -/
def readSequence (spec : Specification .raw) (element : Element) :
    Except CompileError (Specification .raw) := do
  let key ← element.required "key" "record_sequences"
  if (spec.sequenceByKey? key).isSome then
    throw (duplicateKey "record sequence" key "record_sequences")
  let place := s!"record sequence '{key}'"
  let id : SequenceId := ⟨spec.sequences.size⟩
  let readType :=
    readRecordType spec.enumSets key id spec.fields.size spec.references.size
  if element.name = "random_sequence" then
    let some typeElement := element.child? "record_type"
      | throw (.document (.missingElement "record_type" place))
    let (fields, references) ← readType typeElement
    let (sequence, components) ←
      readRandomParts spec { id := id, key := key, kind := .random } place element
    return addSequence spec sequence fields references components
  else
    let (fields, references) ← readType ((element.child? "record_type").getD {})
    return addSequence spec { id := id, key := key, kind := .unsupported element.name }
      fields references []

end Recordgen.Prototype
