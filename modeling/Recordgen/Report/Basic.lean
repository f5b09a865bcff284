/-! # Reports

A report tells what a run has written, kept and left out.
-/

namespace Recordgen

/-- A record sequence for which nothing was generated. -/
structure SkippedSequence where
  key : String
  /-- The element name of its kind. -/
  kind : String
  reason : String
  deriving DecidableEq, Repr

/-- A sequence that is left out because of its kind. -/
def SkippedSequence.ofKind (key kind : String) : SkippedSequence :=
  ⟨key, kind, s!"record sequence kind '{kind}' is not supported"⟩

/-- Something that the author of a document should look at. -/
structure Warning where
  code : String
  message : String
  sequence : Option String := none
  deriving DecidableEq, Repr

/-- The warning about a field that no setter sets. -/
def Warning.noSetter (field sequence : String) : Warning where
  code := "field_without_setter"
  message := s!"field '{field}' has no setter and keeps its default value"
  sequence := some sequence

/-- What a run has done. Paths are relative to the output directory. -/
structure Report where
  /-- The base headers written. -/
  baseWritten : List String := []
  /-- The leaf headers written. -/
  leafCreated : List String := []
  /-- The leaf headers kept because they were there already. -/
  leafSkipped : List String := []
  skippedSequences : List SkippedSequence := []
  warnings : List Warning := []
  deriving DecidableEq, Repr

/-- Adds a warning at the end. -/
def Report.warn (report : Report) (warning : Warning) : Report :=
  { report with warnings := report.warnings ++ [warning] }

end Recordgen
