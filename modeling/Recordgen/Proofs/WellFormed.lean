import Recordgen.Proofs.Conformance

/-! # Well-formed specifications

A specification is well formed when every handle in it leads to a part of the right sort: the
components are one forest whose roots are the functions, the enumerations and the parts of the
sequences, every component conforms with the catalogue, and the fields, references and setters of a
sequence are numbered in order (`Specification.WellFormed`). The predicate does not depend on what
names denote, so it makes sense in both phases.
-/

namespace Recordgen

variable {phase : Phase}

/-- The roots of the component trees that a sequence owns, in the order in which they are read. -/
def RecordSequence.roots (sequence : RecordSequence) : List ComponentId :=
  sequence.outputFormat.toList ++ sequence.setters ++ sequence.estimator.toList ++
    sequence.sequenceIterator.toList

/-- The roots of all component trees. -/
def Specification.roots (spec : Specification phase) : List ComponentId :=
  spec.functions.values ++ spec.enumSets.values ++
    spec.sequences.toList.flatMap RecordSequence.roots

/-- A handle leads to a component of the given category and owner. -/
def Specification.HasRoot (spec : Specification phase) (category : Category)
    (owner : Option SequenceId) (id : ComponentId) : Prop :=
  ∃ component, spec.components[id.index]? = some component ∧
    component.kind.entry.category = category ∧ component.owner = owner

/-- The fields of a record: the identifier comes first, and the order keys are the positions. -/
structure RecordFields (enumSets : KeyMap ComponentId) (owner : SequenceId) (fields : List Field) :
    Prop where
  identifier : ∃ first rest, fields = first :: rest ∧ first.implicit = true ∧
    first.name = implicitFieldName ∧ first.type = .scalar .i64u ∧ first.derived = false ∧
    ∀ field ∈ rest, field.implicit = false
  orders : fields.map Field.order = List.range fields.length
  owners : ∀ field ∈ fields, field.owner = owner
  enumSets : ∀ field ∈ fields, field.enumSet.isSome = field.type.isEnum ∧
    ∀ key, field.enumSet = some key → enumSets.contains key = true

/-- The references of a record: the order keys are the positions. -/
structure RecordReferences (owner : SequenceId) (references : List (Reference phase)) : Prop where
  orders : references.map Reference.order = List.range references.length
  owners : ∀ reference ∈ references, reference.owner = owner

/-- The setters of a chain: the order keys are the positions, and the keys are distinct. -/
structure ChainSetters (owner : SequenceId) (setters : List (Component phase)) : Prop where
  orders : setters.map Component.order = List.range setters.length
  keys : (setters.map Component.key).Nodup
  owners : ∀ setter ∈ setters, setter.owner = some owner
  categories : ∀ setter ∈ setters, setter.kind.entry.category = .setter

/-- One more setter keeps what the setters of a chain have in common. -/
theorem ChainSetters.append {owner : SequenceId} {setters : List (Component phase)}
    {setter : Component phase} (chain : ChainSetters owner setters)
    (fresh : setter.key ∉ setters.map Component.key) (placed : setter.order = setters.length)
    (owned : setter.owner = some owner) (sort : setter.kind.entry.category = .setter) :
    ChainSetters owner (setters ++ [setter]) where
  orders := by
    rw [List.map_append, chain.orders, List.length_append, List.length_singleton,
      List.range_succ, List.map_singleton, placed]
  keys := by
    rw [List.map_append, List.map_singleton]
    exact List.nodup_append.mpr ⟨chain.keys, List.nodup_singleton _,
      fun used member other alone same =>
        fresh (List.mem_singleton.mp alone ▸ same ▸ member)⟩
  owners := by
    intro other member
    rcases List.mem_append.mp member with member | member
    · exact chain.owners other member
    · exact List.mem_singleton.mp member ▸ owned
  categories := by
    intro other member
    rcases List.mem_append.mp member with member | member
    · exact chain.categories other member
    · exact List.mem_singleton.mp member ▸ sort

/-- The handles of a sequence lead to the parts that they should lead to. -/
structure RecordSequence.WellFormed (spec : Specification phase) (sequence : RecordSequence) :
    Prop where
  record : ∃ fields references,
    List.Forall₂ (fun id field => spec.fields[id.index]? = some field) sequence.fields fields ∧
    List.Forall₂ (fun id reference => spec.references[id.index]? = some reference)
      sequence.references references ∧
    RecordFields spec.enumSets sequence.id fields ∧ RecordReferences sequence.id references ∧
    (fields.map Field.name ++ references.map Reference.name).Nodup
  setters : ∃ setters,
    List.Forall₂ (fun id setter => spec.components[id.index]? = some setter)
      sequence.setters setters ∧
    ChainSetters sequence.id setters
  outputFormat : ∀ id ∈ sequence.outputFormat, spec.HasRoot .outputFormat (some sequence.id) id
  estimator : ∀ id ∈ sequence.estimator,
    spec.HasRoot .cardinalityEstimator (some sequence.id) id
  sequenceIterator : ∀ id ∈ sequence.sequenceIterator,
    spec.HasRoot .sequenceIterator (some sequence.id) id
  estimated : sequence.kind = .random → sequence.estimator.isSome = true
  unsupported : sequence.kind ≠ .random → sequence.roots = []

/-- Every handle of a specification leads to a part of the right sort. -/
structure Specification.WellFormed (spec : Specification phase) : Prop where
  sequenceIds : ∀ (index : Nat) (sequence : RecordSequence),
    spec.sequences[index]? = some sequence → sequence.id = ⟨index⟩
  sequenceKeys : (spec.sequences.toList.map RecordSequence.key).Nodup
  fieldIds : spec.fields.toList.map Field.id = (List.range spec.fields.size).map FieldId.mk
  referenceIds : spec.references.toList.map Reference.id =
    (List.range spec.references.size).map ReferenceId.mk
  fieldsListed : spec.sequences.toList.flatMap RecordSequence.fields =
    spec.fields.toList.map Field.id
  referencesListed : spec.sequences.toList.flatMap RecordSequence.references =
    spec.references.toList.map Reference.id
  forest : ∃ roots, Forest none 0 roots spec.components.toList ∧ roots.Perm spec.roots
  conform : ∀ component ∈ spec.components.toList, component.Conforms spec.components.toList
  functions : ∀ id ∈ spec.functions.values, spec.HasRoot .function none id
  enumSets : ∀ id ∈ spec.enumSets.values, spec.HasRoot .enumSet none id
  sequences : ∀ sequence ∈ spec.sequences.toList, sequence.WellFormed spec

namespace Specification

variable {spec : Specification phase} {id : ComponentId}

theorem component_eq {component : Component phase}
    (present : spec.components[id.index]? = some component) : spec.component id = component := by
  rw [Specification.component, Array.getD_eq_getD_getElem?, present, Option.getD_some]

theorem field_eq {id : FieldId} {field : Field} (present : spec.fields[id.index]? = some field) :
    spec.field id = field := by
  rw [Specification.field, Array.getD_eq_getD_getElem?, present, Option.getD_some]

theorem reference_eq {id : ReferenceId} {reference : Reference phase}
    (present : spec.references[id.index]? = some reference) : spec.reference id = reference := by
  rw [Specification.reference, Array.getD_eq_getD_getElem?, present, Option.getD_some]

/-- A handle that leads nowhere designates a component without arguments. -/
theorem component_of_none (absent : spec.components[id.index]? = none) :
    spec.component id = default := by
  rw [Specification.component, Array.getD_eq_getD_getElem?, absent, Option.getD_none]

namespace WellFormed

section

variable (wellFormed : spec.WellFormed) {component : Component phase} {sequence : RecordSequence}

include wellFormed

/-- No two sequences have the same handle. -/
theorem eq_of_id {first second : RecordSequence}
    (left : first ∈ spec.sequences.toList) (right : second ∈ spec.sequences.toList)
    (same : first.id = second.id) : first = second := by
  obtain ⟨index, found⟩ := List.getElem?_of_mem left
  obtain ⟨other, also⟩ := List.getElem?_of_mem right
  rw [Array.getElem?_toList] at found also
  have matching : index = other := by
    rw [wellFormed.sequenceIds _ _ found, wellFormed.sequenceIds _ _ also] at same
    exact SequenceId.mk.inj same
  subst matching
  exact Option.some.inj (found.symm.trans also)

/-- A component stands at its handle. -/
theorem getElem?_id (member : component ∈ spec.components.toList) :
    spec.components[component.id.index]? = some component := by
  obtain ⟨roots, forest, -⟩ := wellFormed.forest
  rw [← Array.getElem?_toList]
  exact forest.getElem?_of_mem (Located.self _) member

/-- A component is found under its own handle. -/
theorem component_id (member : component ∈ spec.components.toList) :
    spec.component component.id = component :=
  component_eq (wellFormed.getElem?_id member)

/-- The handle of a component is its place. -/
theorem id_of_getElem? {index : Nat} (present : spec.components[index]? = some component) :
    component.id = ⟨index⟩ := by
  obtain ⟨roots, forest, -⟩ := wellFormed.forest
  rw [← Array.getElem?_toList] at present
  rw [forest.id_of_getElem? index component present, Nat.zero_add]

/-- What a component holds stands in the arena, behind it, and shares its owner. -/
theorem exists_child {holder : Component phase}
    (member : holder ∈ spec.components.toList) {id : ComponentId} (child : id ∈ holder.children) :
    ∃ component, spec.components[id.index]? = some component ∧ component.id = id ∧
      component.parent = some holder.id ∧ holder.id.index < id.index ∧
      component.owner = holder.owner := by
  obtain ⟨roots, forest, -⟩ := wellFormed.forest
  obtain ⟨component, present, rfl, found⟩ := forest.exists_child member child
  exact ⟨component, wellFormed.getElem?_id present, rfl, found⟩

/-- The fields and references that a sequence lists. -/
theorem record (member : sequence ∈ spec.sequences.toList) :
    RecordFields spec.enumSets sequence.id (sequence.fields.map spec.field) ∧
      RecordReferences sequence.id (sequence.references.map spec.reference) := by
  obtain ⟨fields, references, leadFields, leadReferences, record, linked, -⟩ :=
    (wellFormed.sequences sequence member).record
  rw [map_eq_of_forall₂ (leadFields.imp fun _ _ => field_eq),
    map_eq_of_forall₂ (leadReferences.imp fun _ _ => reference_eq)]
  exact ⟨record, linked⟩

/-- The setters that a sequence lists. -/
theorem chain (member : sequence ∈ spec.sequences.toList) :
    ChainSetters sequence.id (sequence.setters.map spec.component) := by
  obtain ⟨setters, lead, chain⟩ := (wellFormed.sequences sequence member).setters
  rw [map_eq_of_forall₂ (lead.imp fun _ _ => component_eq)]
  exact chain

/-- What is nested in a component comes behind it. -/
theorem childrenFollow : spec.ChildrenFollow := by
  intro id child member
  cases present : spec.components[id.index]? with
  | none =>
      rw [component_of_none present] at member
      cases member
  | some holder =>
      rw [component_eq present] at member
      have inside : holder ∈ spec.components.toList :=
        Array.mem_toList_iff.mpr (Array.mem_of_getElem? present)
      obtain ⟨component, found, -, -, behind, -⟩ := wellFormed.exists_child inside member
      rw [wellFormed.id_of_getElem? present] at behind
      exact ⟨behind, (Array.getElem?_eq_some_iff.mp found).1⟩

/-- The subtrees of the roots list every component once. -/
theorem flatMap_subtree_perm :
    (spec.roots.flatMap spec.subtree).Perm (spec.components.toList.map Component.id) := by
  obtain ⟨roots, forest, same⟩ := wellFormed.forest
  have listed : roots.flatMap spec.subtree = spec.components.toList.map Component.id :=
    forest.flatMap_subtreeTo spec (fun component member => wellFormed.component_id member)
      (Nat.le_of_eq Array.length_toList)
  rw [← listed]
  exact same.symm.flatMap_right _

end

end WellFormed

end Specification

end Recordgen
