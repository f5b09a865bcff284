import Recordgen.Proofs.OrderKeys
import Recordgen.Proofs.RecordTypes
import Recordgen.Proofs.ResolutionFailure

/-! # The order in which a sequence stores its parts

A sequence lists its fields, its references and its setters, and each of them has an order key. If the
lists are stored in another order (`RecordSequence.Rearranged`), the keys still say what comes first:
sorted lists, walks and look-ups by name stay the same, because no key and no name is used twice. So a
specification with rearranged lists is resolved as the original one is
(`Linking.run_withSequences`).
-/

namespace Recordgen

open Outcome

variable {phase : Phase}

/-- One record sequence is another one whose lists are stored in a different order. -/
structure RecordSequence.Rearranged (first second : RecordSequence) : Prop where
  id : second.id = first.id
  key : second.key = first.key
  kind : second.kind = first.kind
  fields : second.fields.Perm first.fields
  references : second.references.Perm first.references
  outputFormat : second.outputFormat = first.outputFormat
  setters : second.setters.Perm first.setters
  estimator : second.estimator = first.estimator
  sequenceIterator : second.sequenceIterator = first.sequenceIterator

namespace Specification

/-- A specification with other record sequences and the same fields, references and components. -/
def withSequences (spec : Specification phase) (sequences : Array RecordSequence) :
    Specification phase :=
  { spec with sequences := sequences }

/-- The sequences are those of a specification, their lists stored in another order. -/
def Rearranges (spec : Specification phase) (sequences : Array RecordSequence) : Prop :=
  List.Forall₂ RecordSequence.Rearranged spec.sequences.toList sequences.toList

end Specification

/-- A value with a key of its own is found wherever it stands. -/
theorem find?_eq_of_perm {α : Type} {values others : List α} {key : α → String} {wanted : String}
    (same : others.Perm values) (distinct : (values.map key).Nodup) :
    others.find? (fun value => key value == wanted) =
      values.find? (fun value => key value == wanted) := by
  cases found : others.find? fun value => key value == wanted with
  | none =>
      symm
      rw [List.find?_eq_none] at found ⊢
      intro value member
      exact found value (same.mem_iff.mpr member)
  | some value =>
      have member := same.mem_iff.mp (List.mem_of_find?_eq_some found)
      have matching := List.find?_some found
      cases first : values.find? fun value => key value == wanted with
      | none => exact absurd matching (List.find?_eq_none.mp first value member)
      | some other =>
          have also := List.find?_some first
          rw [beq_iff_eq] at matching also
          exact congrArg some (List.inj_on_of_nodup_map distinct member
            (List.mem_of_find?_eq_some first) (matching.trans also.symm))

namespace Specification

variable {spec : Specification phase} {sequences : Array RecordSequence}

/-! ## What does not depend on the sequences -/

@[simp] theorem withSequences_sequences :
    (spec.withSequences sequences).sequences = sequences := rfl

@[simp] theorem field_withSequences : (spec.withSequences sequences).field = spec.field := rfl

@[simp] theorem reference_withSequences :
    (spec.withSequences sequences).reference = spec.reference := rfl

@[simp] theorem component_withSequences :
    (spec.withSequences sequences).component = spec.component := rfl

@[simp] theorem walkComponent_withSequences :
    (spec.withSequences sequences).walkComponent = spec.walkComponent := by
  have each (depth : Nat) (id : ComponentId) :
      (spec.withSequences sequences).walkComponentTo depth id = spec.walkComponentTo depth id := by
    induction depth generalizing id with
    | zero => rfl
    | succ depth ih =>
        simp only [walkComponentTo, component_withSequences]
        rw [funext ih]
  funext id
  exact each _ id

@[simp] theorem walkSetter_withSequences :
    (spec.withSequences sequences).walkSetter = spec.walkSetter := by
  funext setter
  rw [walkSetter, walkSetter, walkComponent_withSequences]

/-! ## Sorted lists and look-ups -/

section Sorted

variable {sequence other : RecordSequence} (wellFormed : spec.WellFormed)
  (member : sequence ∈ spec.sequences.toList) (same : sequence.Rearranged other)

include wellFormed member same

/-- The order of the fields does not depend on where sequences are stored. -/
theorem orderedFields_rearranged :
    (spec.withSequences sequences).orderedFields other = spec.orderedFields sequence := by
  apply mergeSort_eq_of_perm (same.fields.map spec.field)
  rw [(wellFormed.record member).1.orders]
  exact List.nodup_range

theorem orderedReferences_rearranged :
    (spec.withSequences sequences).orderedReferences other = spec.orderedReferences sequence := by
  apply mergeSort_eq_of_perm (same.references.map spec.reference)
  rw [(wellFormed.record member).2.orders]
  exact List.nodup_range

theorem orderedSetters_rearranged :
    (spec.withSequences sequences).orderedSetters other = spec.orderedSetters sequence := by
  apply mergeSort_eq_of_perm (same.setters.map spec.component)
  rw [(wellFormed.chain member).orders]
  exact List.nodup_range

/-- Nor does the walk over a sequence. -/
theorem walkSequence_rearranged :
    (spec.withSequences sequences).walkSequence other = spec.walkSequence sequence := by
  rw [walkSequence, walkSequence, orderedFields_rearranged wellFormed member same,
    orderedReferences_rearranged wellFormed member same,
    orderedSetters_rearranged wellFormed member same, walkComponent_withSequences,
    walkSetter_withSequences, same.id, same.estimator, same.sequenceIterator, same.outputFormat]

end Sorted

namespace Rearranges

/-- Sequences that belong together, with the first of them known to be there. -/
theorem members (stored : spec.Rearranges sequences) :
    List.Forall₂ (fun sequence other => sequence ∈ spec.sequences.toList ∧
      sequence.Rearranged other) spec.sequences.toList sequences.toList :=
  (List.forall₂_and_left _ _).mpr ⟨fun _ => id, stored⟩

private theorem walk_eq (stored : spec.Rearranges sequences) (wellFormed : spec.WellFormed) :
    (spec.withSequences sequences).walk = spec.walk := by
  have walked := flatMap_eq_of_forall₂ stored.members fun _ _ both =>
    @walkSequence_rearranged _ _ sequences _ _ wellFormed both.1 both.2
  rw [walk, walk, withSequences_sequences, walked]
  rfl

/-- A handle leads to sequences that belong together, or to blank ones. -/
theorem sequence_cases (stored : spec.Rearranges sequences) (id : SequenceId) :
    spec.sequence id ∈ spec.sequences.toList ∧
        (spec.sequence id).Rearranged ((spec.withSequences sequences).sequence id) ∨
      (spec.withSequences sequences).sequence id = spec.sequence id ∧
        spec.sequence id = default := by
  by_cases inside : id.index < spec.sequences.size
  · left
    have present := Array.getElem?_eq_getElem inside
    obtain ⟨other, there, same⟩ := forall₂_getElem? stored
      (Array.getElem?_toList.trans present)
    rw [Array.getElem?_toList] at there
    have found : (spec.withSequences sequences).sequence id = other := sequence_eq there
    rw [found, sequence_eq present]
    exact ⟨mem_sequences present, same⟩
  · right
    have size : sequences.size = spec.sequences.size := stored.length_eq.symm
    have beyond : ¬ id.index < sequences.size := size ▸ inside
    have blank : spec.sequence id = default := by
      simp [Specification.sequence, inside]
    refine ⟨?_, blank⟩
    rw [blank]
    simp [Specification.sequence, beyond]

variable (stored : spec.Rearranges sequences)

include stored

theorem key_eq (id : SequenceId) :
    ((spec.withSequences sequences).sequence id).key = (spec.sequence id).key := by
  rcases stored.sequence_cases id with ⟨-, same⟩ | ⟨same, -⟩
  · exact same.key
  · rw [same]

private theorem sequenceByKey?_eq (key : String) :
    ((spec.withSequences sequences).sequenceByKey? key).map RecordSequence.id =
      (spec.sequenceByKey? key).map RecordSequence.id := by
  have matching := forall₂_filter (fun sequence => sequence.key == key) stored
    fun _ _ same => by rw [same.key]
  have handles := congrArg List.head? (map_eq_map_of_forall₂ matching fun _ _ both => both.2.id)
  rw [List.head?_map, List.head?_map, List.head?_filter, List.head?_filter] at handles
  rw [sequenceByKey?, sequenceByKey?, ← Array.find?_toList, ← Array.find?_toList]
  exact handles

private theorem findField?_eq (wellFormed : spec.WellFormed) (id : SequenceId) (name : String) :
    (spec.withSequences sequences).findField? id name = spec.findField? id name := by
  rw [findField?, findField?, field_withSequences]
  rcases stored.sequence_cases id with ⟨member, same⟩ | ⟨same, -⟩
  · apply find?_eq_of_perm (same.fields.map spec.field)
    rw [List.map_map]
    exact (List.nodup_append.mp (wellFormed.names_nodup member)).1
  · rw [same]

private theorem findReference?_eq (wellFormed : spec.WellFormed) (id : SequenceId) (name : String) :
    (spec.withSequences sequences).findReference? id name = spec.findReference? id name := by
  rw [findReference?, findReference?, reference_withSequences]
  rcases stored.sequence_cases id with ⟨member, same⟩ | ⟨same, -⟩
  · apply find?_eq_of_perm (same.references.map spec.reference)
    rw [List.map_map]
    exact (List.nodup_append.mp (wellFormed.names_nodup member)).2.1
  · rw [same]

end Rearranges

end Specification

/-! ## Resolution -/

namespace Linking

open Specification (Rearranges)

/-- Of a sequence that is looked up only the handle is used. -/
theorem handle_eq {first second : Option RecordSequence} {fault : CompileError} :
    first.map RecordSequence.id = second.map RecordSequence.id →
      (match first with
        | some sequence => Except.ok sequence.id
        | none => .error fault) =
        (match second with
        | some sequence => Except.ok sequence.id
        | none => .error fault) := by
  intro same
  cases first <;> cases second <;> simp_all

section Paths

variable {spec : Specification phase} {sequences : Array RecordSequence}
  (stored : spec.Rearranges sequences)

include stored

private theorem startSequence_withSequences (kind : LinkKind) (path : String) (root : Option String)
    (owner : Option SequenceId) (place : String) :
    startSequence (spec.withSequences sequences) kind path root owner place =
      startSequence spec kind path root owner place := by
  cases root with
  | none => cases owner <;> rfl
  | some root =>
      rw [startSequence, startSequence]
      exact handle_eq (stored.sequenceByKey?_eq root)

variable (wellFormed : spec.WellFormed)

include wellFormed

private theorem followReferences_withSequences (targets : List SequenceId) (segments : List String)
    (current : SequenceId) :
    followReferences (spec.withSequences sequences) targets current segments =
      followReferences spec targets current segments := by
  induction segments generalizing current with
  | nil => rfl
  | cons segment rest ih =>
      simp only [followReferences, stored.findReference?_eq wellFormed, ih]

private theorem resolveFieldPath_withSequences (targets : List SequenceId) (path : String)
    (owner : Option SequenceId) (place : String) :
    resolveFieldPath (spec.withSequences sequences) targets path owner place =
      resolveFieldPath spec targets path owner place := by
  simp only [resolveFieldPath, startSequence_withSequences stored,
    followReferences_withSequences stored wellFormed, stored.findField?_eq wellFormed]

private theorem resolveReferencePath_withSequences (path : String) (owner : Option SequenceId)
    (place : String) :
    resolveReferencePath (spec.withSequences sequences) path owner place =
      resolveReferencePath spec path owner place := by
  simp only [resolveReferencePath, startSequence_withSequences stored,
    stored.findReference?_eq wellFormed]

end Paths

variable {spec : Specification .raw} {sequences : Array RecordSequence}

/-- Lists that are numbered stay so in another order. -/
theorem numbered_withSequences {sequence other : RecordSequence}
    (numbered : sequence.Numbered spec) (same : sequence.Rearranged other) :
    other.Numbered (spec.withSequences sequences) where
  fields := by
    rw [same.fields.length_eq]
    exact (same.fields.map _).trans numbered.fields
  references := by
    rw [same.references.length_eq]
    exact (same.references.map _).trans numbered.references
  setters := by
    rw [same.setters.length_eq]
    exact (same.setters.map _).trans numbered.setters
  started := by
    obtain ⟨id, listed, first⟩ := numbered.started
    exact ⟨id, same.fields.mem_iff.mpr listed, first⟩
  identifier := by
    intro id listed first
    exact numbered.identifier id (same.fields.mem_iff.mp listed) first

variable (stored : spec.Rearranges sequences)

include stored

private theorem checkOrderKeys_withSequences (wellFormed : spec.WellFormed) :
    checkOrderKeys (spec.withSequences sequences) = checkOrderKeys spec := by
  have passed := checkOrderKeys_ok wellFormed
  rw [passed, checkOrderKeys_eq_ok_iff]
  intro other listed
  obtain ⟨sequence, member, same⟩ := exists_left_of_mem stored listed
  exact numbered_withSequences (checkOrderKeys_eq_ok_iff.mp passed sequence member) same

private theorem resolveTarget_withSequences (reference : Reference .raw) :
    resolveTarget (spec.withSequences sequences) reference = resolveTarget spec reference := by
  rw [resolveTarget, resolveTarget, stored.key_eq]
  exact handle_eq (stored.sequenceByKey?_eq reference.target)

private theorem componentSites_withSequences :
    componentSites (spec.withSequences sequences) = componentSites spec := by
  have places : placeOf (spec.withSequences sequences) = placeOf spec := by
    funext component
    simp only [placeOf, stored.key_eq]
  funext id
  rw [componentSites, componentSites, places]
  rfl

variable (wellFormed : spec.WellFormed)

include wellFormed

private theorem linkSites_withSequences :
    linkSites (spec.withSequences sequences) = linkSites spec := by
  rw [linkSites, linkSites, stored.walk_eq wellFormed, componentSites_withSequences stored]

private theorem fieldSetters_withSequences :
    fieldSetters (spec.withSequences sequences) = fieldSetters spec := by
  rw [fieldSetters, fieldSetters, stored.walk_eq wellFormed]
  rfl

private theorem bindAll_withSequences : bindAll (spec.withSequences sequences) = bindAll spec := by
  have targets : resolveTarget (spec.withSequences sequences) = resolveTarget spec :=
    funext (resolveTarget_withSequences stored)
  simp only [bindAll, linkSites_withSequences stored wellFormed, targets,
    resolveFieldPath_withSequences stored wellFormed,
    resolveReferencePath_withSequences stored wellFormed]
  rfl

/-- **Resolution does not look at the order of the lists.** -/
theorem run_withSequences :
    run (spec.withSequences sequences) =
      (fun result => (result.1.withSequences sequences, result.2)) <$> run spec := by
  rw [run, run, bindAll_withSequences stored wellFormed,
    fieldSetters_withSequences stored wellFormed, checkOrderKeys_withSequences stored wellFormed]
  simp only [map_bind]
  rfl

end Linking

end Recordgen
