import Recordgen.Proofs.BoundSetters
import Recordgen.Proofs.LinkTargets
import Recordgen.Proofs.PlannedHeaders

/-! # The records that a path leads through

A link keeps the path that it was written as. The path starts at the sequence that its first segment
names, or at the sequence that holds it if it has one segment only (`Specification.StartsAt`). Each
reference on the way belongs to the record reached so far (`Specification.Leads`), and the field or
reference at the end belongs to the record reached last (`FieldLink.Follows`,
`ReferenceLink.Follows`). Nothing else ties a link to the sequence that holds it, except that the
field of a field setter is one of its own record (`pathsFollowed_of_readDocument`).
-/

namespace Recordgen

open Outcome

/-- The sequence that a path starts at: the one that it names, or else the one that holds it. -/
inductive Specification.StartsAt {phase : Phase} (spec : Specification phase)
    (holder : RecordSequence) : Option String → SequenceId → Prop
  | holder : StartsAt spec holder none holder.id
  | named (sequence : RecordSequence) (member : sequence ∈ spec.sequences.toList) :
      StartsAt spec holder (some sequence.key) sequence.id

/-- References lead from one record to another. Each of them belongs to the record that those in
front of it lead to. -/
inductive Specification.Leads (spec : Specification .resolved) :
    SequenceId → List ReferenceId → SequenceId → Prop
  | stay (record : SequenceId) : Leads spec record [] record
  | follow (record : SequenceId) (id : ReferenceId) (rest : List ReferenceId) (last : SequenceId)
      (owned : (spec.reference id).owner = record)
      (onward : Leads spec (spec.reference id).target rest last) : Leads spec record (id :: rest) last

/-- A field link goes the way of a path that is held by a sequence. -/
structure FieldLink.Follows (spec : Specification .resolved) (holder : RecordSequence)
    (path : FieldPath) (link : FieldLink) : Prop where
  written : FieldPath.parse link.path = .ok path
  starts : spec.StartsAt holder path.root link.root
  names : link.inner.map (fun id => (spec.reference id).name) = path.inner
  leads : spec.Leads link.root link.inner (spec.field link.field).owner
  ends : (spec.field link.field).name = path.field
  listed : link.field ∈ (spec.sequence (spec.field link.field).owner).fields

/-- A reference link goes the way of a path that is held by a sequence. -/
structure ReferenceLink.Follows (spec : Specification .resolved) (holder : RecordSequence)
    (path : ReferencePath) (link : ReferenceLink) : Prop where
  written : ReferencePath.parse link.path = .ok path
  starts : spec.StartsAt holder path.record link.record
  owner : (spec.reference link.reference).owner = link.record
  ends : (spec.reference link.reference).name = path.reference
  listed : link.reference ∈ (spec.sequence link.record).references

namespace Specification

variable {phase : Phase} {spec : Specification phase}

/-- A path stays with its holder exactly if it names no other sequence. -/
theorem StartsAt.eq_holder_iff (wellFormed : spec.WellFormed) {holder : RecordSequence}
    (member : holder ∈ spec.sequences.toList) {root : Option String} {start : SequenceId}
    (starts : spec.StartsAt holder root start) :
    start = holder.id ↔ root = none ∨ root = some holder.key := by
  cases starts with
  | holder => exact iff_of_true rfl (.inl rfl)
  | named sequence present =>
      constructor
      · intro same
        obtain rfl := wellFormed.eq_of_id present member same
        exact .inr rfl
      · rintro (none | same)
        · cases none
        · obtain rfl := List.inj_on_of_nodup_map wellFormed.sequenceKeys present member
            (Option.some.inj same)
          rfl

/-- References lead to one record only. -/
theorem Leads.unique {spec : Specification .resolved} {start first second : SequenceId}
    {references : List ReferenceId} (one : spec.Leads start references first)
    (two : spec.Leads start references second) : first = second := by
  induction one with
  | stay record =>
      cases two
      rfl
  | follow record id rest last owned onward ih =>
      cases two with
      | follow _ _ _ _ _ other => exact ih other

private theorem name_of_findReference? {record : SequenceId} {name : String}
    {reference : Reference phase} (found : spec.findReference? record name = some reference) :
    reference.name = name := by
  simpa using List.find?_some found

private theorem name_of_findField? {record : SequenceId} {name : String} {field : Field}
    (found : spec.findField? record name = some field) : field.name = name := by
  simpa using List.find?_some found

end Specification

namespace Linking

variable {spec : Specification .raw} {result : Specification .resolved}

section

variable (resolved : Resolved spec result) {record : SequenceId} {path place : String}
  {holder : RecordSequence}

include resolved

/-- Resolution does not change a sequence. -/
theorem Resolved.sequence_eq (id : SequenceId) :
    result.sequence id = spec.sequence id := by
  rw [Specification.sequence, Specification.sequence, resolved.sequences]

/-- What becomes of the reference that a record lists. -/
theorem Resolved.reference_of_listed (wellFormed : spec.WellFormed) {id : ReferenceId}
    (listed : id ∈ (spec.sequence record).references) :
    (result.reference id).owner = record ∧
      (result.reference id).name = (spec.reference id).name ∧
      (result.references.toList.map Reference.target)[id.index]? =
        some (result.reference id).target := by
  obtain ⟨present, -, owned⟩ := wellFormed.reference_of_listed listed
  rw [← Array.getElem?_toList] at present
  obtain ⟨image, there, same⟩ := forall₂_getElem? resolved.references present
  have known := there
  rw [Array.getElem?_toList] at known
  rw [Specification.reference_eq known, List.getElem?_map, there]
  exact ⟨same.owner.trans owned, same.name, rfl⟩

private theorem Resolved.sameField {id : FieldId} {field : Field}
    (present : spec.fields[id.index]? = some field) : SameField field (result.field id) := by
  rw [← Array.getElem?_toList] at present
  obtain ⟨image, there, same⟩ := forall₂_getElem? resolved.fields present
  rw [Array.getElem?_toList] at there
  rw [Specification.field_eq there]
  exact same

/-- What becomes of the field that a record lists. -/
theorem Resolved.field_of_listed (wellFormed : spec.WellFormed) {id : FieldId}
    (listed : id ∈ (spec.sequence record).fields) :
    (result.field id).owner = record ∧ (result.field id).name = (spec.field id).name := by
  obtain ⟨present, -, owned⟩ := wellFormed.field_of_listed listed
  have same := resolved.sameField present
  exact ⟨(SameField.congr Field.owner (fun _ _ => rfl) same).trans owned,
    SameField.congr Field.name (fun _ _ => rfl) same⟩

private theorem startsAt_of_startSequence {kind : LinkKind} {root : Option String}
    {start : SequenceId}
    (found : startSequence spec kind path root (some holder.id) place = .ok start) :
    result.StartsAt holder root start := by
  rcases startSequence_eq_ok_iff.mp found with ⟨key, sequence, rfl, here, rfl⟩ | ⟨rfl, held⟩
  · obtain ⟨member, rfl⟩ := mem_of_sequenceByKey? here
    exact .named sequence (resolved.sequences ▸ member)
  · obtain rfl := Option.some.inj held
    exact .holder

/-- Following names goes from record to record. -/
theorem leads_of_followReferences (wellFormed : spec.WellFormed)
    {current reached : SequenceId} {segments : List String} {references : List ReferenceId}
    (followed : followReferences spec (result.references.toList.map Reference.target) current
      segments = .ok (references, reached)) :
    result.Leads current references reached ∧
      references.map (fun id => (result.reference id).name) = segments := by
  induction segments generalizing current references with
  | nil =>
      obtain ⟨rfl, rfl⟩ := Prod.mk.inj (Except.ok.inj followed)
      exact ⟨.stay _, rfl⟩
  | cons segment rest ih =>
      rw [followReferences] at followed
      split at followed
      · cases followed
      rename_i reference here
      obtain ⟨id, listed, rfl⟩ := Specification.mem_of_findReference? here
      obtain ⟨owned, named, target⟩ := resolved.reference_of_listed wellFormed listed
      rw [(wellFormed.reference_of_listed listed).2.1, target] at followed
      obtain ⟨⟨later, last⟩, onward, same⟩ := bind_pure_eq_ok_iff.mp followed
      obtain ⟨rfl, rfl⟩ := Prod.mk.inj same
      obtain ⟨leads, names⟩ := ih onward
      refine ⟨.follow current id later last owned leads, ?_⟩
      rw [List.map_cons, names, named, Specification.name_of_findReference? here]

/-- A resolved field path is followed by its link. -/
theorem follows_of_resolveFieldPath (wellFormed : spec.WellFormed) {link : FieldLink}
    (found : resolveFieldPath spec (result.references.toList.map Reference.target) path
      (some holder.id) place = .ok link) : ∃ parsed, link.Follows result holder parsed := by
  obtain ⟨parsed, last, field, written, started, followed, here, rfl, ended⟩ :=
    resolveFieldPath_steps_iff.mp found
  obtain ⟨id, listed, rfl⟩ := Specification.mem_of_findField? here
  obtain ⟨leads, names⟩ := leads_of_followReferences resolved wellFormed followed
  obtain ⟨owned, named⟩ := resolved.field_of_listed wellFormed listed
  rw [(wellFormed.field_of_listed listed).2.1] at ended
  refine ⟨parsed, written, startsAt_of_startSequence resolved started, names, ?_, ?_, ?_⟩
  · rw [ended, owned]
    exact leads
  · rw [ended]
    exact named.trans (Specification.name_of_findField? here)
  · rw [ended, owned, resolved.sequence_eq]
    exact listed

/-- A resolved reference path is followed by its link. -/
theorem follows_of_resolveReferencePath (wellFormed : spec.WellFormed) {link : ReferenceLink}
    (found : resolveReferencePath spec path (some holder.id) place = .ok link) :
    ∃ parsed, link.Follows result holder parsed := by
  obtain ⟨parsed, reference, written, started, here, rfl, ended⟩ :=
    resolveReferencePath_steps_iff.mp found
  obtain ⟨id, listed, rfl⟩ := Specification.mem_of_findReference? here
  obtain ⟨owned, named, -⟩ := resolved.reference_of_listed wellFormed listed
  rw [(wellFormed.reference_of_listed listed).2.1] at ended
  refine ⟨parsed, written, startsAt_of_startSequence resolved started, ?_, ?_, ?_⟩
  · rw [ended, owned]
  · rw [ended]
    exact named.trans (Specification.name_of_findReference? here)
  · rw [ended, resolved.sequence_eq]
    exact listed

end

end Linking

/-- All links of a specification follow their paths, and field setters set fields of their own
record. -/
structure Specification.PathsFollowed (spec : Specification .resolved) : Prop where
  fields : ∀ (holder : RecordSequence), ∀ component ∈ spec.components.toList,
    component.owner = some holder.id → ∀ (key : String) (link : FieldLink),
      component.argument? key = some (@Argument.fieldRef .resolved link) →
        ∃ path, link.Follows spec holder path
  references : ∀ (holder : RecordSequence), ∀ component ∈ spec.components.toList,
    component.owner = some holder.id → ∀ (key : String) (link : ReferenceLink),
      component.argument? key = some (@Argument.referenceRef .resolved link) →
        ∃ path, link.Follows spec holder path
  setters : ∀ component ∈ spec.components.toList, component.kind = .fieldSetter →
    ∀ (link : FieldLink), component.argument? "field" = some (@Argument.fieldRef .resolved link) →
      link.inner = [] ∧ some (spec.field link.field).owner = component.owner

section Arguments

variable {spec : Specification .resolved} {holder : RecordSequence}
  {component : Component .resolved} {key : String}

section

variable (followed : spec.PathsFollowed) (wellFormed : spec.WellFormed)
  (member : component ∈ spec.components.toList) (owned : component.owner = some holder.id)

include followed wellFormed member owned

/-- A field argument of a component holds a link that follows its path. -/
theorem Specification.PathsFollowed.exists_field
    (argument : component.kind.hasArgument key (.single .fieldRef) = true) :
    ∃ link path, component.argument? key = some (@Argument.fieldRef .resolved link) ∧
      link.Follows spec holder path := by
  obtain ⟨link, held⟩ := Component.field_of_hasArgument (wellFormed.conform _ member) argument
  obtain ⟨path, follows⟩ := followed.fields holder component member owned key link held
  exact ⟨link, path, held, follows⟩

/-- A reference argument of a component holds a link that follows its path. -/
theorem Specification.PathsFollowed.exists_reference
    (argument : component.kind.hasArgument key (.single .referenceRef) = true) :
    ∃ link path, component.argument? key = some (@Argument.referenceRef .resolved link) ∧
      link.Follows spec holder path := by
  obtain ⟨link, held⟩ := Component.reference_of_hasArgument (wellFormed.conform _ member) argument
  obtain ⟨path, follows⟩ := followed.references holder component member owned key link held
  exact ⟨link, path, held, follows⟩

end

end Arguments

namespace Linking

variable {spec : Specification .raw} {result : Specification .resolved} {link : FieldLink}

/-- The link that stands in a resolved field setter is the one that was checked when the setter was
attached. -/
theorem checked_of_fieldSetter (wellFormed : spec.WellFormed) {bindings : Bindings}
    (bound : bindAll spec = .ok bindings)
    (targets : bindings.targets = result.references.toList.map Reference.target)
    (settable : ∀ id ∈ fieldSetters spec, ∃ field, setterField spec bindings id = .ok field)
    {original : Component .raw} (present : original ∈ spec.components.toList)
    {image : Component .resolved}
    (related :
      ComponentResolved spec (result.references.toList.map Reference.target) original image)
    (sort : original.kind = .fieldSetter)
    (held : image.argument? "field" = some (@Argument.fieldRef .resolved link)) :
    ∃ path, original.argument? "field" = some (@Argument.fieldRef .raw path) ∧
      resolveFieldPath spec (result.references.toList.map Reference.target) path original.owner
        (placeOf spec original) = .ok link ∧
      setterField spec bindings original.id = .ok link.field ∧ link.inner = [] ∧
      some (spec.field link.field).owner = original.owner := by
  obtain ⟨path, given, found⟩ := related.exists_fieldPath held
  obtain ⟨field, set⟩ :=
    settable original.id ((mem_fieldSetters wellFormed).mpr ⟨original, present, sort, rfl⟩)
  obtain ⟨name, checked, holds, again, rfl, own, direct⟩ :=
    link_of_setterField wellFormed bound present sort set
  obtain rfl : path = name := by
    rw [given] at holds
    injection holds with same
    injection same
  rw [targets] at again
  obtain rfl := Except.ok.inj (found.symm.trans again)
  exact ⟨path, given, found, set, direct, own⟩

/-- The field that a field setter is linked to is one of its own record. -/
theorem own_of_fieldSetter (assembled : Prototype.Assembled spec) {summary : Summary}
    (ran : run spec = .ok (result, summary)) {component : Component .resolved}
    (member : component ∈ result.components.toList) (sort : component.kind = .fieldSetter)
    (held : component.argument? "field" = some (@Argument.fieldRef .resolved link)) :
    link.inner = [] ∧ some (result.field link.field).owner = component.owner := by
  have wellFormed := assembled.wellFormed
  obtain ⟨resolved, -⟩ := resolved_of_run assembled ran
  obtain ⟨original, present, related⟩ := exists_left_of_mem resolved.components member
  rw [related.kind] at sort
  obtain ⟨bindings, bound, targets, settable, -⟩ := setter_of_run assembled ran
  obtain ⟨path, -, found, -, direct, own⟩ :=
    checked_of_fieldSetter wellFormed bound targets settable present related sort held
  have inside := (index_of_resolveFieldPath wellFormed (wellFormed.owner_lt present) found).2.2
  have there := Array.getElem?_eq_getElem inside
  rw [SameField.congr Field.owner (fun _ _ => rfl) (resolved.sameField there),
    ← Specification.field_eq there, related.owner]
  exact ⟨direct, own⟩

end Linking

/-- **The paths of a document are followed.** -/
theorem pathsFollowed_of_readDocument {text : String} {spec : Specification .resolved}
    (read : readDocument text = .ok spec) : spec.PathsFollowed := by
  obtain ⟨raw, parsed, resolved⟩ := bind_eq_ok_iff.mp read
  obtain ⟨⟨_, summary⟩, ran, rfl⟩ := map_eq_ok_iff.mp resolved
  have assembled := Prototype.parse_assembled parsed
  obtain ⟨resolved, -⟩ := Linking.resolved_of_run assembled ran
  refine ⟨?_, ?_, ?_⟩
  · intro holder component member owned key link held
    obtain ⟨original, -, related⟩ := exists_left_of_mem resolved.components member
    obtain ⟨path, -, found⟩ := related.exists_fieldPath held
    rw [← related.owner, owned] at found
    exact Linking.follows_of_resolveFieldPath resolved assembled.wellFormed found
  · intro holder component member owned key link held
    obtain ⟨original, -, related⟩ := exists_left_of_mem resolved.components member
    obtain ⟨path, -, found⟩ := related.exists_path held
    rw [← related.owner, owned] at found
    exact Linking.follows_of_resolveReferencePath resolved assembled.wellFormed found
  · intro component member sort link held
    exact Linking.own_of_fieldSetter assembled ran member sort held

end Recordgen
