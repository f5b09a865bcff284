import Recordgen.LinkPath
import Recordgen.Specification.Basic

/-! # Following paths

A path is followed from record to record: it starts at the sequence named by its root, or at the
sequence that holds it, goes through references to their targets, and ends at a field or reference.
The first segment that cannot be followed is the one reported.
-/

namespace Recordgen.Linking

variable {phase : Phase}

/-- The sequence that a path starts at. -/
def startSequence (spec : Specification phase) (kind : LinkKind) (path : String)
    (root : Option String) (owner : Option SequenceId) (place : String) :
    Except CompileError SequenceId :=
  match root, owner with
  | some root, _ =>
    match spec.sequenceByKey? root with
    | some sequence => .ok sequence.id
    | none => .error (.unresolved kind path root place)
  | none, some owner => .ok owner
  | none, none => .error (.unresolved kind path path place)

/-- Follows references by name, from one sequence to the next. Gives the references and the sequence
reached, or the first name that cannot be followed. `targets` holds the sequence that each reference
refers to. -/
def followReferences (spec : Specification phase) (targets : List SequenceId) :
    SequenceId → List String → Except String (List ReferenceId × SequenceId)
  | current, [] => .ok ([], current)
  | current, segment :: rest =>
    match spec.findReference? current segment with
    | none => .error segment
    | some reference =>
      match targets[reference.id.index]? with
      | none => .error segment
      | some next => do
        let (references, reached) ← followReferences spec targets next rest
        return (reference.id :: references, reached)

/-- Follows a field path. -/
def resolveFieldPath (spec : Specification phase) (targets : List SequenceId) (path : String)
    (owner : Option SequenceId) (place : String) : Except CompileError FieldLink := do
  let parsed ← FieldPath.parse path
  let root ← startSequence spec .field path parsed.root owner place
  let (inner, last) ← (followReferences spec targets root parsed.inner).mapError fun segment =>
    .unresolved .field path segment place
  match spec.findField? last parsed.field with
  | some field => return { path := path, root := root, inner := inner, field := field.id }
  | none => throw (.unresolved .field path parsed.field place)

/-- Follows a reference path. -/
def resolveReferencePath (spec : Specification phase) (path : String)
    (owner : Option SequenceId) (place : String) : Except CompileError ReferenceLink := do
  let parsed ← ReferencePath.parse path
  let record ← startSequence spec .reference path parsed.record owner place
  match spec.findReference? record parsed.reference with
  | some reference => return { path := path, record := record, reference := reference.id }
  | none => throw (.unresolved .reference path parsed.reference place)

end Recordgen.Linking
