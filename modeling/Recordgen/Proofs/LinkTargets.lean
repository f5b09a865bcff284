import Recordgen.Proofs.PreOrder

/-! # Where links lead

A path that is resolved ends at a field or a reference that some record lists, so the links of a
resolved specification lead to parts of it, and so do the references themselves
(`Linking.Resolved.exists_target`, `Linking.Resolved.linksLead`).
-/

namespace Recordgen

open Outcome

namespace Specification

variable {phase : Phase} {spec : Specification phase} {sequence : RecordSequence}
  {record : SequenceId}

theorem sequence_eq {id : SequenceId} (present : spec.sequences[id.index]? = some sequence) :
    spec.sequence id = sequence := by
  rw [Specification.sequence, Array.getD_eq_getD_getElem?, present, Option.getD_some]

/-- A handle leads to a sequence of the specification or to a blank one. -/
theorem sequence_cases (spec : Specification phase) (id : SequenceId) :
    spec.sequences[id.index]? = some (spec.sequence id) ∨ spec.sequence id = default := by
  cases present : spec.sequences[id.index]? with
  | some sequence => exact .inl (by rw [sequence_eq present])
  | none => exact .inr (by rw [Specification.sequence, Array.getD_eq_getD_getElem?, present]; rfl)

theorem mem_sequences {index : Nat} (present : spec.sequences[index]? = some sequence) :
    sequence ∈ spec.sequences.toList :=
  Array.mem_toList_iff.mpr (Array.mem_of_getElem? present)

/-- A reference that is found is one of the record's. -/
theorem mem_of_findReference? {name : String} {reference : Reference phase}
    (found : spec.findReference? record name = some reference) :
    ∃ id ∈ (spec.sequence record).references, spec.reference id = reference :=
  List.mem_map.mp (List.mem_of_find?_eq_some found)

/-- A field that is found is one of the record's. -/
theorem mem_of_findField? {name : String} {field : Field}
    (found : spec.findField? record name = some field) :
    ∃ id ∈ (spec.sequence record).fields, spec.field id = field :=
  List.mem_map.mp (List.mem_of_find?_eq_some found)

namespace WellFormed

/-- A sequence stands at its handle. -/
theorem sequence_id (wellFormed : spec.WellFormed) {sequence : RecordSequence}
    (member : sequence ∈ spec.sequences.toList) : spec.sequence sequence.id = sequence := by
  obtain ⟨index, found⟩ := List.getElem?_of_mem member
  rw [Array.getElem?_toList] at found
  apply Specification.sequence_eq
  rw [wellFormed.sequenceIds index sequence found]
  exact found

/-- What a record lists as its reference is one, and belongs to the record. -/
theorem reference_of_listed (wellFormed : spec.WellFormed) {record : SequenceId}
    {id : ReferenceId} (listed : id ∈ (spec.sequence record).references) :
    spec.references[id.index]? = some (spec.reference id) ∧ (spec.reference id).id = id ∧
      (spec.reference id).owner = record := by
  rcases spec.sequence_cases record with present | blank
  · obtain ⟨-, references, -, lead, -, owned, -⟩ :=
      (wellFormed.sequences _ (mem_sequences present)).record
    obtain ⟨reference, inside, found⟩ := exists_right_of_mem lead listed
    rw [reference_eq found]
    refine ⟨found, id_of_numbered wellFormed.referenceIds found, ?_⟩
    rw [owned.owners reference inside, wellFormed.sequenceIds _ _ present]
  · rw [blank] at listed
    cases listed

/-- What a record lists as its field is one, and belongs to the record. -/
theorem field_of_listed (wellFormed : spec.WellFormed) {record : SequenceId} {id : FieldId}
    (listed : id ∈ (spec.sequence record).fields) :
    spec.fields[id.index]? = some (spec.field id) ∧ (spec.field id).id = id ∧
      (spec.field id).owner = record := by
  rcases spec.sequence_cases record with present | blank
  · obtain ⟨fields, -, lead, -, owned, -⟩ :=
      (wellFormed.sequences _ (mem_sequences present)).record
    obtain ⟨field, inside, found⟩ := exists_right_of_mem lead listed
    rw [field_eq found]
    refine ⟨found, id_of_numbered wellFormed.fieldIds found, ?_⟩
    rw [owned.owners field inside, wellFormed.sequenceIds _ _ present]
  · rw [blank] at listed
    cases listed

end WellFormed

end Specification

namespace Linking

variable {spec : Specification .raw} {result : Specification .resolved} {path place : String}
  {owner : Option SequenceId} {link : ReferenceLink} {targets : List SequenceId}

/-- A reference path ends at a reference that the record lists. -/
theorem reference_of_resolveReferencePath (wellFormed : spec.WellFormed)
    (found : resolveReferencePath spec path owner place = .ok link) :
    link.reference ∈ (spec.sequence link.record).references := by
  obtain ⟨_, reference, -, -, here, -, ended⟩ := resolveReferencePath_steps_iff.mp found
  obtain ⟨id, listed, rfl⟩ := Specification.mem_of_findReference? here
  rw [ended, (wellFormed.reference_of_listed listed).2.1]
  exact listed

/-- A path starts at a sequence that is there, if its holder belongs to one. -/
theorem index_of_startSequence {kind : LinkKind} {root : Option String}
    (wellFormed : spec.WellFormed) (owned : ∀ id ∈ owner, id.index < spec.sequences.size)
    {start : SequenceId} (found : startSequence spec kind path root owner place = .ok start) :
    start.index < spec.sequences.size := by
  rcases startSequence_eq_ok_iff.mp found with ⟨key, sequence, -, here, rfl⟩ | ⟨-, held⟩
  · exact wellFormed.index_lt_of_mem
      (Array.mem_toList_iff.mpr (Array.mem_of_find?_eq_some here))
  · exact owned start held

/-- A path leads through references that are there. -/
theorem references_of_followReferences (wellFormed : spec.WellFormed) {current reached : SequenceId}
    {segments : List String} {references : List ReferenceId}
    (followed : followReferences spec targets current segments = .ok (references, reached)) :
    ∀ id ∈ references, id.index < spec.references.size := by
  induction segments generalizing current references with
  | nil =>
      obtain ⟨rfl, -⟩ := Prod.mk.inj (Except.ok.inj followed)
      exact fun id listed => absurd listed List.not_mem_nil
  | cons segment rest ih =>
      rw [followReferences] at followed
      split at followed
      · cases followed
      rename_i reference here
      split at followed
      · cases followed
      obtain ⟨⟨later, last⟩, onward, same⟩ := bind_pure_eq_ok_iff.mp followed
      obtain ⟨rfl, rfl⟩ := Prod.mk.inj same
      obtain ⟨id, listed, rfl⟩ := Specification.mem_of_findReference? here
      obtain ⟨present, placed, -⟩ := wellFormed.reference_of_listed listed
      rw [placed, List.forall_mem_cons]
      exact ⟨(Array.getElem?_eq_some_iff.mp present).1, ih onward⟩

/-- A field path starts at a sequence, leads through references and ends at a field that are there. -/
theorem index_of_resolveFieldPath (wellFormed : spec.WellFormed)
    (owned : ∀ id ∈ owner, id.index < spec.sequences.size) {link : FieldLink}
    (found : resolveFieldPath spec targets path owner place = .ok link) :
    link.root.index < spec.sequences.size ∧
      (∀ id ∈ link.inner, id.index < spec.references.size) ∧
      link.field.index < spec.fields.size := by
  obtain ⟨parsed, last, field, -, started, followed, here, -, ended⟩ :=
    resolveFieldPath_steps_iff.mp found
  obtain ⟨id, listed, rfl⟩ := Specification.mem_of_findField? here
  obtain ⟨present, placed, -⟩ := wellFormed.field_of_listed listed
  refine ⟨index_of_startSequence wellFormed owned started,
    references_of_followReferences wellFormed followed, ?_⟩
  rw [ended, placed]
  exact (Array.getElem?_eq_some_iff.mp present).1

section Component

variable {targets : List SequenceId} {component : Component .raw} {image : Component .resolved}
  {key : String}

/-- An argument of a resolved component is what became of the argument with the same key. -/
theorem ComponentResolved.exists_argument (related : ComponentResolved spec targets component image)
    {after : Argument .resolved} (held : image.argument? key = some after) :
    ∃ before, component.argument? key = some before ∧
      ArgumentResolved spec targets component before after :=
  exists_lookup_of_forall₂ related.arguments held

/-- The field links of a component were field paths. -/
theorem ComponentResolved.exists_fieldPath
    (related : ComponentResolved spec targets component image) {link : FieldLink}
    (held : image.argument? key = some (@Argument.fieldRef .resolved link)) :
    ∃ path, component.argument? key = some (@Argument.fieldRef .raw path) ∧
      resolveFieldPath spec targets path component.owner (placeOf spec component) = .ok link := by
  obtain ⟨before, given, same⟩ := related.exists_argument held
  cases same with
  | item same =>
      cases same with
      | fieldRef path link found => exact ⟨path, given, found⟩

/-- The reference links of a component were reference paths. -/
theorem ComponentResolved.exists_path
    (related : ComponentResolved spec targets component image) {link : ReferenceLink}
    (held : image.argument? key = some (@Argument.referenceRef .resolved link)) :
    ∃ path, component.argument? key = some (@Argument.referenceRef .raw path) ∧
      resolveReferencePath spec path component.owner (placeOf spec component) = .ok link := by
  obtain ⟨before, given, same⟩ := related.exists_argument held
  cases same with
  | item same =>
      cases same with
      | referenceRef path link found => exact ⟨path, given, found⟩

end Component

/-- **Reference links** lead to references whose targets are sequences of the specification. -/
theorem Resolved.exists_target (resolved : Resolved spec result) (wellFormed : spec.WellFormed)
    {component : Component .resolved} (member : component ∈ result.components.toList) {key : String}
    (held : component.argument? key = some (@Argument.referenceRef .resolved link)) :
    ∃ target ∈ result.sequences.toList,
      target.id = (result.reference link.reference).target := by
  obtain ⟨original, -, related⟩ := exists_left_of_mem resolved.components member
  obtain ⟨path, -, found⟩ := related.exists_path held
  have listed := reference_of_resolveReferencePath wellFormed found
  obtain ⟨present, -, -⟩ := wellFormed.reference_of_listed listed
  rw [← Array.getElem?_toList] at present
  obtain ⟨image, there, same⟩ := forall₂_getElem? resolved.references present
  rw [Array.getElem?_toList] at there
  obtain ⟨target, known, -, led⟩ := same.target
  rw [Specification.reference_eq there, resolved.sequences]
  exact ⟨target, known, led⟩

end Linking

/-- The links of components and the references lead to parts that are there. -/
structure Specification.LinksLead (spec : Specification .resolved) : Prop where
  targets : ∀ reference ∈ spec.references.toList,
    SequenceId.index reference.target < spec.sequences.size
  fields : ∀ component ∈ spec.components.toList, ∀ (key : String) (link : FieldLink),
    component.argument? key = some (@Argument.fieldRef .resolved link) →
      link.root.index < spec.sequences.size ∧
        (∀ id ∈ link.inner, id.index < spec.references.size) ∧
        link.field.index < spec.fields.size
  references : ∀ component ∈ spec.components.toList, ∀ (key : String) (link : ReferenceLink),
    component.argument? key = some (@Argument.referenceRef .resolved link) →
      link.reference.index < spec.references.size

/-- **Resolved links lead somewhere.** -/
theorem Linking.Resolved.linksLead {spec : Specification .raw} {result : Specification .resolved}
    (resolved : Resolved spec result) (wellFormed : spec.WellFormed) : result.LinksLead where
  targets := by
    intro reference member
    obtain ⟨original, -, same⟩ := exists_left_of_mem resolved.references member
    obtain ⟨target, known, -, led⟩ := same.target
    rw [← led, resolved.sequences]
    exact wellFormed.index_lt_of_mem known
  fields := by
    intro component member key link held
    obtain ⟨original, present, related⟩ := exists_left_of_mem resolved.components member
    obtain ⟨path, -, found⟩ := related.exists_fieldPath held
    have sizes : result.references.size = spec.references.size ∧
        result.fields.size = spec.fields.size := by
      rw [← Array.length_toList, ← Array.length_toList, ← Array.length_toList,
        ← Array.length_toList]
      exact ⟨resolved.references.length_eq.symm, resolved.fields.length_eq.symm⟩
    rw [resolved.sequences, sizes.1, sizes.2]
    exact index_of_resolveFieldPath wellFormed (wellFormed.owner_lt present) found
  references := by
    intro component member key link held
    obtain ⟨original, -, related⟩ := exists_left_of_mem resolved.components member
    obtain ⟨path, -, found⟩ := related.exists_path held
    have listed := reference_of_resolveReferencePath wellFormed found
    rw [← Array.length_toList, ← resolved.references.length_eq, Array.length_toList]
    exact (Array.getElem?_eq_some_iff.mp (wellFormed.reference_of_listed listed).1).1

end Recordgen
