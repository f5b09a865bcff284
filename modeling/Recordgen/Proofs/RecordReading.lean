import Recordgen.Proofs.WellFormed
import Recordgen.Prototype.Record

/-! # What reading a record type gives

Fields and references are read one behind the other, and each step keeps what makes a record type:
the order keys are the positions, the handles follow each other, and no name is used twice
(`readRecordType_read`).
-/

namespace Recordgen.Prototype

open Markup (Element)
open Outcome

variable {enumSets : KeyMap ComponentId} {owner : SequenceId} {fields : List Field}
  {fieldNames : List String} {references : List (Reference .raw)} {element : Element}
  {place : String} {base : Nat}

/-- Fields read so far, numbered from `base` on. -/
structure FieldsRead (enumSets : KeyMap ComponentId) (owner : SequenceId) (base : Nat)
    (fields : List Field) : Prop where
  record : RecordFields enumSets owner fields
  ids : fields.map Field.id = (List.range' base fields.length).map FieldId.mk
  names : (fields.map Field.name).Nodup
  unset : ∀ field ∈ fields, field.setter = none

/-- References read so far, numbered from `base` on, behind fields with the given names. -/
structure ReferencesRead (owner : SequenceId) (fieldNames : List String) (base : Nat)
    (references : List (Reference .raw)) : Prop where
  record : RecordReferences owner references
  ids : references.map Reference.id = (List.range' base references.length).map ReferenceId.mk
  names : (fieldNames ++ references.map Reference.name).Nodup

/-- Fields that are read stand under their handles behind those before them. -/
theorem FieldsRead.found {before : Array Field}
    (fieldsRead : FieldsRead enumSets owner before.size fields) :
    ∀ field ∈ fields, (before ++ fields)[field.id.index]? = some field := by
  have indices := congrArg (List.map FieldId.index) fieldsRead.ids
  simp only [List.map_map, Function.comp_def, List.map_id'] at indices
  exact List.forall₂_same.mp (List.forall₂_map_left_iff.mp (forall₂_numbered indices))

/-- References that are read stand under their handles behind those before them. -/
theorem ReferencesRead.found {before : Array (Reference .raw)}
    (referencesRead : ReferencesRead owner fieldNames before.size references) :
    ∀ reference ∈ references, (before ++ references)[reference.id.index]? = some reference := by
  have indices := congrArg (List.map ReferenceId.index) referencesRead.ids
  simp only [List.map_map, Function.comp_def, List.map_id'] at indices
  exact List.forall₂_same.mp (List.forall₂_map_left_iff.mp (forall₂_numbered indices))

private theorem readEnumSet_eq {type : FieldType} {enumSet : Option String}
    (read : readEnumSet enumSets element type place = .ok enumSet) :
    enumSet.isSome = type.isEnum ∧
      ∀ key, enumSet = some key → enumSets.contains key = true := by
  unfold readEnumSet at read
  split at read
  · rename_i isEnum
    obtain ⟨key, -, read⟩ := bind_eq_ok_iff.mp read
    split at read
    · rename_i known
      obtain rfl := pure_eq_ok_iff.mp read
      refine ⟨isEnum.symm, ?_⟩
      rintro _ ⟨⟩
      exact known
    · cases read
  · rename_i noEnum
    obtain rfl := pure_eq_ok_iff.mp read
    exact ⟨(Bool.eq_false_iff.mpr noEnum).symm, by simp⟩

private theorem fieldsRead_implicit (enumSets : KeyMap ComponentId) (owner : SequenceId)
    (base : Nat) :
    FieldsRead enumSets owner base [implicitField ⟨base⟩ owner] where
  record :=
    { identifier := ⟨_, [], rfl, rfl, rfl, rfl, rfl, by simp⟩
      orders := rfl
      owners := by simp [implicitField]
      enumSets := by simp [implicitField, FieldType.isEnum] }
  ids := rfl
  names := by simp
  unset := by simp [implicitField]

/-- One more field keeps what the fields have in common. -/
theorem FieldsRead.append {field : Field} (fieldsRead : FieldsRead enumSets owner base fields)
    (read : readField enumSets place owner (fields.map Field.name) ⟨base + fields.length⟩
      fields.length element = .ok field) : FieldsRead enumSets owner base (fields ++ [field]) := by
  obtain ⟨name, -, read⟩ := bind_eq_ok_iff.mp read
  split at read
  · cases read
  rename_i fresh
  obtain ⟨typeText, -, read⟩ := bind_eq_ok_iff.mp read
  obtain ⟨type, -, read⟩ := bind_eq_ok_iff.mp read
  obtain ⟨derived, -, read⟩ := bind_eq_ok_iff.mp read
  obtain ⟨enumSet, enumerated, rfl⟩ := bind_pure_eq_ok_iff.mp read
  obtain ⟨first, rest, rfl, implicit, named, typed, stored, plain⟩ := fieldsRead.record.identifier
  refine ⟨⟨?_, ?_, ?_, ?_⟩, ?_, ?_, ?_⟩
  · refine ⟨first, rest ++ [_], rfl, implicit, named, typed, stored, ?_⟩
    intro other member
    rcases List.mem_append.mp member with member | member
    · exact plain other member
    · obtain rfl := List.mem_singleton.mp member
      rfl
  · rw [List.map_append, fieldsRead.record.orders, List.length_append, List.length_singleton,
      List.range_succ]
    rfl
  · intro other member
    rcases List.mem_append.mp member with member | member
    · exact fieldsRead.record.owners other member
    · obtain rfl := List.mem_singleton.mp member
      rfl
  · intro other member
    rcases List.mem_append.mp member with member | member
    · exact fieldsRead.record.enumSets other member
    · obtain rfl := List.mem_singleton.mp member
      exact readEnumSet_eq enumerated
  · rw [List.map_append, fieldsRead.ids, List.length_append, List.length_singleton,
      List.range'_concat, List.map_append]
    simp
  · rw [List.map_append, List.nodup_append]
    refine ⟨fieldsRead.names, by simp, ?_⟩
    rintro used member _ (⟨⟩ | ⟨_, ⟨⟩⟩) rfl
    exact fresh member
  · intro other member
    rcases List.mem_append.mp member with member | member
    · exact fieldsRead.unset other member
    · obtain rfl := List.mem_singleton.mp member
      rfl

private theorem readFields_read {elements : List Element} {before : List Field}
    (fieldsRead : FieldsRead enumSets owner base before)
    (read : readFields enumSets place owner base before elements = .ok fields) :
    FieldsRead enumSets owner base fields := by
  induction elements generalizing before with
  | nil =>
      obtain rfl := Except.ok.inj read
      exact fieldsRead
  | cons element elements ih =>
      obtain ⟨field, here, later⟩ := bind_eq_ok_iff.mp read
      exact ih (fieldsRead.append here) later

/-- One more reference keeps what the references have in common. -/
theorem ReferencesRead.append {reference : Reference .raw}
    (referencesRead : ReferencesRead owner fieldNames base references)
    (read : readReference place owner (fieldNames ++ references.map Reference.name)
      ⟨base + references.length⟩ references.length element = .ok reference) :
    ReferencesRead owner fieldNames base (references ++ [reference]) := by
  obtain ⟨name, -, read⟩ := bind_eq_ok_iff.mp read
  split at read
  · cases read
  rename_i fresh
  obtain ⟨target, -, rfl⟩ := bind_pure_eq_ok_iff.mp read
  refine ⟨⟨?_, ?_⟩, ?_, ?_⟩
  · rw [List.map_append, referencesRead.record.orders, List.length_append, List.length_singleton,
      List.range_succ]
    rfl
  · intro other member
    rcases List.mem_append.mp member with member | member
    · exact referencesRead.record.owners other member
    · obtain rfl := List.mem_singleton.mp member
      rfl
  · rw [List.map_append, referencesRead.ids, List.length_append, List.length_singleton,
      List.range'_concat, List.map_append]
    simp
  · rw [List.map_append, ← List.append_assoc, List.nodup_append]
    refine ⟨referencesRead.names, by simp, ?_⟩
    rintro used member _ (⟨⟩ | ⟨_, ⟨⟩⟩) rfl
    exact fresh member

private theorem readReferences_read {elements : List Element} {before : List (Reference .raw)}
    (referencesRead : ReferencesRead owner fieldNames base before)
    (read : readReferences place owner fieldNames base before elements = .ok references) :
    ReferencesRead owner fieldNames base references := by
  induction elements generalizing before with
  | nil =>
      obtain rfl := Except.ok.inj read
      exact referencesRead
  | cons element elements ih =>
      obtain ⟨reference, here, later⟩ := bind_eq_ok_iff.mp read
      exact ih (referencesRead.append here) later

/-- What a record type is read as. -/
theorem readRecordType_read {key : String} {fieldBase referenceBase : Nat}
    (read : readRecordType enumSets key owner fieldBase referenceBase element =
      .ok (fields, references)) :
    FieldsRead enumSets owner fieldBase fields ∧
      ReferencesRead owner (fields.map Field.name) referenceBase references := by
  obtain ⟨fields, fieldsFound, read⟩ := bind_eq_ok_iff.mp read
  obtain ⟨references, referencesFound, same⟩ := bind_pure_eq_ok_iff.mp read
  obtain ⟨rfl, rfl⟩ := Prod.mk.inj same
  have fieldsRead := readFields_read (fieldsRead_implicit enumSets owner fieldBase) fieldsFound
  refine ⟨fieldsRead, readReferences_read ⟨⟨rfl, by simp⟩, rfl, ?_⟩ referencesFound⟩
  rw [List.map_nil, List.append_nil]
  exact fieldsRead.names

end Recordgen.Prototype
