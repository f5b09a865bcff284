import Recordgen.Json.Parser
import Recordgen.Json.Printer
import Recordgen.Report.Basic

/-! # Reports in JSON

A report is printed as an object. A warning that concerns no sequence is printed without one, and a
sequence that is left out or null is read as none.
-/

namespace Recordgen

/-- The sequence in JSON. -/
def SkippedSequence.toJson (sequence : SkippedSequence) : JsonValue :=
  .ofMembers
    [("key", .ofString sequence.key), ("kind", .ofString sequence.kind),
      ("reason", .ofString sequence.reason)]

/-- Reads a sequence. -/
def SkippedSequence.ofJson? (value : JsonValue) : Option SkippedSequence := do
  let fields ← value.fields? ["key", "kind", "reason"]
  return {
    key := ← (← fields.lookup "key").string?
    kind := ← (← fields.lookup "kind").string?
    reason := ← (← fields.lookup "reason").string? }

namespace Warning

/-- The warning in JSON. -/
def toJson (warning : Warning) : JsonValue :=
  .ofMembers
    ([("code", .ofString warning.code), ("message", .ofString warning.message)] ++
      (warning.sequence.map fun sequence => ("sequence", .ofString sequence)).toList)

/-- Reads the sequence of a warning. -/
def sequenceOfJson? : Option JsonValue → Option (Option String)
  | none | some .null => some none
  | some value => value.string?.map some

/-- Reads a warning. -/
def ofJson? (value : JsonValue) : Option Warning := do
  let fields ← value.fields? ["code", "message", "sequence"]
  return {
    code := ← (← fields.lookup "code").string?
    message := ← (← fields.lookup "message").string?
    sequence := ← sequenceOfJson? (fields.lookup "sequence") }

end Warning

namespace Report

/-- The names of the fields of a report, in order. -/
def fieldNames : List String :=
  ["base_written", "leaf_created", "leaf_skipped", "skipped_sequences", "warnings"]

/-- A list of paths in JSON. -/
def pathsToJson (paths : List String) : JsonValue :=
  .array (paths.map JsonValue.ofString)

/-- The report in JSON. -/
def toJson (report : Report) : JsonValue :=
  .ofMembers
    [("base_written", pathsToJson report.baseWritten),
      ("leaf_created", pathsToJson report.leafCreated),
      ("leaf_skipped", pathsToJson report.leafSkipped),
      ("skipped_sequences", .array (report.skippedSequences.map SkippedSequence.toJson)),
      ("warnings", .array (report.warnings.map Warning.toJson))]

/-- Reads a report. -/
def ofJson? (value : JsonValue) : Option Report := do
  let fields ← value.fields? fieldNames
  let paths? := JsonValue.list? JsonValue.string?
  return {
    baseWritten := ← paths? (← fields.lookup "base_written")
    leafCreated := ← paths? (← fields.lookup "leaf_created")
    leafSkipped := ← paths? (← fields.lookup "leaf_skipped")
    skippedSequences := ←
      (← fields.lookup "skipped_sequences").list? SkippedSequence.ofJson?
    warnings := ← (← fields.lookup "warnings").list? Warning.ofJson? }

/-- The text of a report. -/
def print (report : Report) : String :=
  report.toJson.pretty

/-- Reads the text of a report. -/
def parse? (text : String) : Option Report :=
  (JsonValue.parse? text).bind ofJson?

end Report

end Recordgen
