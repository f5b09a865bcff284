import Recordgen.Proofs.JsonText
import Recordgen.Report.Json

/-! # Reading a printed report

The text of a report is read back as the report, whatever its paths, keys and messages hold, and
whether its warnings concern a sequence or not (`Report.parse?_print`).
-/

namespace Recordgen

open JsonValue (Textual)

namespace JsonValue

private theorem string?_ofString (value : String) : (ofString value).string? = some value :=
  TextUnit.toString?_ofString value

/-- The fields of a record are found in the object that it is printed as. -/
theorem fields?_ofMembers {names : List String} {members : List (String × JsonValue)}
    (known : ∀ member ∈ members, member.1 ∈ names) (distinct : (members.map Prod.fst).Nodup) :
    (ofMembers members).fields? names = some members := by
  have named : (members.map fun member => (TextUnit.ofString member.1, member.2)).mapM
      (fun member => (TextUnit.toString? member.1).map fun name => (name, member.2)) =
        some members := by
    clear known distinct
    induction members with
    | nil => rfl
    | cons member members ih =>
        rw [List.map_cons, List.mapM_cons, TextUnit.toString?_ofString, ih]
        rfl
  have all : members.filter (fun member => names.contains member.1) = members :=
    List.filter_eq_self.mpr fun member listed => by simpa using known member listed
  rw [ofMembers, fields?, named, Option.bind_eq_bind, Option.bind_some, all, if_pos distinct]

/-- A field is looked up and read. -/
theorem bind_lookup {α β : Type} {fields : List (String × JsonValue)} {name : String}
    {value : JsonValue} {read? : JsonValue → Option α} {result : α} {rest : α → Option β}
    (found : fields.lookup name = some value) (read : read? value = some result) :
    (do let result ← read? (← fields.lookup name)
        rest result) = rest result := by
  rw [found, Option.bind_eq_bind, Option.bind_some, read, Option.bind_eq_bind, Option.bind_some]

/-- A list is read back if its items are. -/
theorem list?_array {α : Type} {write : α → JsonValue} {read? : JsonValue → Option α}
    (each : ∀ value, read? (write value) = some value) (values : List α) :
    (array (values.map write)).list? read? = some values := by
  rw [list?]
  induction values with
  | nil => rfl
  | cons value values ih => simp [each, ih]

/-- A list is textual if its items are. -/
theorem textual_array {α : Type} {write : α → JsonValue} (each : ∀ value, (write value).Textual)
    (values : List α) : (array (values.map write)).Textual := by
  apply Textual.array
  intro item listed
  obtain ⟨value, -, rfl⟩ := List.mem_map.mp listed
  exact each value

end JsonValue

open JsonValue

private theorem SkippedSequence.ofJson?_toJson (sequence : SkippedSequence) :
    ofJson? sequence.toJson = some sequence := by
  rw [ofJson?, toJson, fields?_ofMembers (by simp) (by simp), Option.bind_eq_bind, Option.bind_some]
  refine (bind_lookup rfl (string?_ofString sequence.key)).trans ?_
  refine (bind_lookup rfl (string?_ofString sequence.kind)).trans ?_
  exact bind_lookup rfl (string?_ofString sequence.reason)

private theorem SkippedSequence.textual_toJson (sequence : SkippedSequence) :
    sequence.toJson.Textual := by
  apply Textual.object
  simp [Textual.string]

private theorem Warning.sequenceOfJson?_ofString (sequence : String) :
    sequenceOfJson? (some (ofString sequence)) = some (some sequence) := by
  have text : sequenceOfJson? (some (ofString sequence)) = (ofString sequence).string?.map some :=
    rfl
  rw [text, string?_ofString, Option.map_some]

private theorem Warning.ofJson?_toJson (warning : Warning) :
    ofJson? warning.toJson = some warning := by
  obtain ⟨code, message, sequence⟩ := warning
  cases sequence with
  | none =>
      rw [ofJson?, toJson, fields?_ofMembers (by simp) (by simp), Option.bind_eq_bind,
        Option.bind_some]
      refine (bind_lookup rfl (string?_ofString code)).trans ?_
      exact (bind_lookup rfl (string?_ofString message)).trans rfl
  | some sequence =>
      rw [ofJson?, toJson, fields?_ofMembers (by simp) (by simp), Option.bind_eq_bind,
        Option.bind_some]
      refine (bind_lookup rfl (string?_ofString code)).trans ?_
      refine (bind_lookup rfl (string?_ofString message)).trans ?_
      change (sequenceOfJson? (some (ofString sequence))).bind _ = _
      rw [sequenceOfJson?_ofString]
      rfl

private theorem Warning.textual_toJson (warning : Warning) : warning.toJson.Textual := by
  apply Textual.object
  cases warning.sequence <;> simp [Textual.string]

namespace Report

private theorem ofJson?_toJson (report : Report) : ofJson? report.toJson = some report := by
  have paths : ∀ values, list? string? (pathsToJson values) = some values :=
    list?_array string?_ofString
  rw [ofJson?, toJson, fields?_ofMembers (by simp [fieldNames]) (by simp), Option.bind_eq_bind,
    Option.bind_some]
  refine (bind_lookup rfl (paths report.baseWritten)).trans ?_
  refine (bind_lookup rfl (paths report.leafCreated)).trans ?_
  refine (bind_lookup rfl (paths report.leafSkipped)).trans ?_
  refine (bind_lookup rfl (list?_array SkippedSequence.ofJson?_toJson _)).trans ?_
  exact bind_lookup rfl (list?_array Warning.ofJson?_toJson _)

private theorem textual_toJson (report : Report) : report.toJson.Textual := by
  apply Textual.object
  simp [pathsToJson, textual_array Textual.string, textual_array SkippedSequence.textual_toJson,
    textual_array Warning.textual_toJson]

/-- **A printed report is read back.** -/
theorem parse?_print (report : Report) : parse? report.print = some report := by
  rw [parse?, print, JsonValue.parse?_pretty report.textual_toJson, Option.bind_some,
    ofJson?_toJson]

end Report

end Recordgen
