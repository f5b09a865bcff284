import Recordgen.Error
import Recordgen.Text.Blank
import Recordgen.Text.Split

/-! # Paths to fields and references

A path is a list of segments divided by colons. A field path names a root record, references to
follow and a field at the end; a reference path names a record and one of its references. The root
may be left out, and blanks around a segment do not count.
-/

namespace Recordgen

/-- The trimmed segments of a path, none of them empty. -/
def pathSegments (kind : PathKind) (text : String) : Except CompileError (List String) :=
  let segments := (Text.splitAtChar ':' text.toList).map Text.trimChars
  if [] ∈ segments then .error (.malformed (.emptySegment kind text))
  else .ok (segments.map String.ofList)

/-- A path to a field. -/
structure FieldPath where
  /-- The record to start from; without one, the record that holds the path. -/
  root : Option String
  /-- The references to follow. -/
  inner : List String
  field : String
  deriving DecidableEq, Repr

namespace FieldPath

/-- The path with the given segments; the last one is the field. -/
def ofSegments? : List String → Option FieldPath
  | [] => none
  | [field] => some ⟨none, [], field⟩
  | root :: second :: rest =>
    some ⟨some root, (second :: rest).dropLast, (second :: rest).getLast (by simp)⟩

/-- Reads a field path. -/
def parse (text : String) : Except CompileError FieldPath := do
  let segments ← pathSegments .field text
  match ofSegments? segments with
  | some path => pure path
  | none => throw (.malformed (.emptySegment .field text))

/-- The segments of a path. -/
def segments (path : FieldPath) : List String :=
  path.root.toList ++ path.inner ++ [path.field]

/-- Writes a field path. -/
def display (path : FieldPath) : String :=
  ":".intercalate path.segments

end FieldPath

/-- A path to a reference. -/
structure ReferencePath where
  /-- The record that has the reference; without one, the record that holds the path. -/
  record : Option String
  reference : String
  deriving DecidableEq, Repr

namespace ReferencePath

/-- Reads a reference path. -/
def parse (text : String) : Except CompileError ReferencePath := do
  match ← pathSegments .reference text with
  | [reference] => pure ⟨none, reference⟩
  | [record, reference] => pure ⟨some record, reference⟩
  | _ => throw (.malformed (.referenceForm text))

end ReferencePath

end Recordgen
