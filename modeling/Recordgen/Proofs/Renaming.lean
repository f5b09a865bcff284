import Recordgen.Proofs.LinkTargets

/-! # Renaming the handles of a specification

Handles are positions, so the same part of two documents may have different handles. A `Renaming`
gives the handles of one specification in terms of those of another, and a specification is embedded
in another one when each of its parts stands there, renamed (`Specification.Embeds`).
-/

namespace Recordgen

variable {phase : Phase}

/-- New handles for the parts of a specification. -/
structure Renaming where
  sequence : SequenceId → SequenceId
  field : FieldId → FieldId
  reference : ReferenceId → ReferenceId
  component : ComponentId → ComponentId

/-- The renaming that changes nothing. -/
def Renaming.same : Renaming :=
  ⟨id, id, id, id⟩

section Parts

variable (new : Renaming)

def FieldLink.rename (link : FieldLink) : FieldLink :=
  { link with
    root := new.sequence link.root
    inner := link.inner.map new.reference
    field := new.field link.field }

def ReferenceLink.rename (link : ReferenceLink) : ReferenceLink :=
  { link with
    record := new.sequence link.record
    reference := new.reference link.reference }

/-! Names that are not resolved hold no handles. -/

def Phase.renameRecord : (phase : Phase) → phase.RecordTarget → phase.RecordTarget
  | .raw, name => name
  | .resolved, id => new.sequence id

def Phase.renameField : (phase : Phase) → phase.FieldTarget → phase.FieldTarget
  | .raw, name => name
  | .resolved, link => link.rename new

def Phase.renameReference : (phase : Phase) → phase.ReferenceTarget → phase.ReferenceTarget
  | .raw, name => name
  | .resolved, link => link.rename new

def Phase.renameFunction : (phase : Phase) → phase.FunctionTarget → phase.FunctionTarget
  | .raw, name => name
  | .resolved, id => new.component id

mutual

def Argument.rename : Argument phase → Argument phase
  | .literal value => .literal value
  | .fieldRef target => .fieldRef (phase.renameField new target)
  | .referenceRef target => .referenceRef (phase.renameReference new target)
  | .functionRef target => .functionRef (phase.renameFunction new target)
  | .component id => .component (new.component id)
  | .collection items => .collection (Argument.renameAll items)

def Argument.renameAll : List (Argument phase) → List (Argument phase)
  | [] => []
  | item :: items => item.rename :: Argument.renameAll items

end

def Component.rename (component : Component phase) : Component phase :=
  { component with
    id := new.component component.id
    arguments := component.arguments.map fun entry => (entry.1, entry.2.rename new)
    parent := component.parent.map new.component
    owner := component.owner.map new.sequence }

def Reference.rename (reference : Reference phase) : Reference phase :=
  { reference with
    id := new.reference reference.id
    owner := new.sequence reference.owner
    target := phase.renameRecord new reference.target }

def Field.rename (field : Field) : Field :=
  { field with
    id := new.field field.id
    owner := new.sequence field.owner
    setter := field.setter.map new.component }

def RecordSequence.rename (sequence : RecordSequence) : RecordSequence :=
  { sequence with
    id := new.sequence sequence.id
    fields := sequence.fields.map new.field
    references := sequence.references.map new.reference
    outputFormat := sequence.outputFormat.map new.component
    setters := sequence.setters.map new.component
    estimator := sequence.estimator.map new.component
    sequenceIterator := sequence.sequenceIterator.map new.component }

end Parts

namespace Argument

variable {new : Renaming}

/-- A list is renamed item by item. -/
@[simp]
theorem renameAll_eq_map (items : List (Argument phase)) :
    renameAll new items = items.map (rename new) := by
  induction items with
  | nil => rfl
  | cons item items ih => rw [renameAll, ih, List.map_cons]

theorem component?_rename (argument : Argument phase) :
    (argument.rename new).component? = argument.component?.map new.component := by
  cases argument <;> rfl

theorem literal?_rename (argument : Argument phase) :
    (argument.rename new).literal? = argument.literal? := by
  cases argument <;> rfl

theorem fieldRef?_rename (argument : Argument .resolved) :
    (argument.rename new).fieldRef? = argument.fieldRef?.map (FieldLink.rename new) := by
  cases argument <;> rfl

theorem referenceRef?_rename (argument : Argument .resolved) :
    (argument.rename new).referenceRef? =
      argument.referenceRef?.map (ReferenceLink.rename new) := by
  cases argument <;> rfl

theorem functionRef?_rename (argument : Argument .resolved) :
    (argument.rename new).functionRef? = argument.functionRef?.map new.component := by
  cases argument <;> rfl

theorem children_rename (argument : Argument phase) :
    (argument.rename new).children = argument.children.map new.component := by
  cases argument with
  | collection items =>
      rw [rename, renameAll_eq_map, children, children, List.filterMap_map, List.map_filterMap]
      exact List.filterMap_congr fun item _ => item.component?_rename
  | literal | fieldRef | referenceRef | functionRef | component => rfl

/-- Renaming nothing changes nothing. -/
theorem rename_same : (argument : Argument .raw) → argument.rename .same = argument
  | .literal _ | .fieldRef _ | .referenceRef _ | .functionRef _ | .component _ => rfl
  | .collection items => by
      rw [rename, renameAll_eq_map]
      refine congrArg Argument.collection ?_
      exact (List.map_congr_left fun item _ => rename_same item).trans (List.map_id items)

/-- Before names are resolved, only the components that an argument mentions are renamed. -/
theorem rename_congr {other : Renaming} : (argument : Argument .raw) →
    (∀ id, argument.Mentions id → new.component id = other.component id) →
      argument.rename new = argument.rename other
  | .literal _, _ | .fieldRef _, _ | .referenceRef _, _ | .functionRef _, _ => rfl
  | .component id, agree => congrArg Argument.component (agree id .component)
  | .collection items, agree => by
      rw [rename, rename, renameAll_eq_map, renameAll_eq_map]
      refine congrArg Argument.collection (List.map_congr_left fun item member => ?_)
      exact rename_congr item fun id mentions => agree id (.item items item member mentions)

end Argument

namespace Component

variable {new : Renaming}

theorem children_rename (component : Component phase) :
    (component.rename new).children = component.children.map new.component := by
  simp only [children, rename, List.flatMap_map, List.map_flatMap, Argument.children_rename]

theorem argument?_rename (component : Component phase) (key : String) :
    (component.rename new).argument? key =
      (component.argument? key).map (Argument.rename new) := by
  unfold argument? rename
  dsimp only
  induction component.arguments with
  | nil => rfl
  | cons entry rest ih =>
      rw [List.map_cons, lookup_cons_ite, lookup_cons_ite, ih]
      split <;> rfl

end Component

/-- Each part of one specification stands in another one, with its handles renamed. Parts of one owner
have different handles there. Functions and enumerations keep their handles. -/
structure Specification.Embeds (new : Renaming) (small large : Specification phase) : Prop where
  parameters : large.parameters = small.parameters
  functions : large.functions = small.functions
  enumSets : large.enumSets = small.enumSets
  fixed : ∀ id ∈ small.functions.values ++ small.enumSets.values, new.component id = id
  sequences : ∀ (id : SequenceId) (sequence : RecordSequence),
    small.sequences[id.index]? = some sequence →
      large.sequences[(new.sequence id).index]? = some (sequence.rename new)
  fields : ∀ (id : FieldId) (field : Field), small.fields[id.index]? = some field →
    large.fields[(new.field id).index]? = some (field.rename new)
  references : ∀ (id : ReferenceId) (reference : Reference phase),
    small.references[id.index]? = some reference →
      large.references[(new.reference id).index]? = some (reference.rename new)
  components : ∀ (id : ComponentId) (component : Component phase),
    small.components[id.index]? = some component →
      large.components[(new.component id).index]? = some (component.rename new)
  fieldsApart : ∀ (id other : FieldId) (first second : Field),
    small.fields[id.index]? = some first → small.fields[other.index]? = some second →
      first.owner = second.owner → new.field id = new.field other → id = other
  componentsApart : ∀ (id other : ComponentId) (first second : Component phase),
    small.components[id.index]? = some first → small.components[other.index]? = some second →
      first.owner = second.owner → new.component id = new.component other → id = other

namespace Specification.Embeds

variable {new : Renaming} {small large : Specification phase}

section

variable (embeds : Embeds new small large) {sequence : RecordSequence}

include embeds

/-- A sequence is found under its new handle, renamed. -/
theorem sequence_eq {id : SequenceId} (present : small.sequences[id.index]? = some sequence) :
    large.sequence (new.sequence id) = (small.sequence id).rename new := by
  rw [Specification.sequence_eq present]
  exact Specification.sequence_eq (embeds.sequences id sequence present)

theorem field_eq {id : FieldId} {field : Field}
    (present : small.fields[id.index]? = some field) :
    large.field (new.field id) = (small.field id).rename new := by
  rw [Specification.field_eq present]
  exact Specification.field_eq (embeds.fields id field present)

theorem reference_eq {id : ReferenceId}
    {reference : Reference phase} (present : small.references[id.index]? = some reference) :
    large.reference (new.reference id) = (small.reference id).rename new := by
  rw [Specification.reference_eq present]
  exact Specification.reference_eq (embeds.references id reference present)

/-- A component is found under its new handle, renamed. -/
theorem component_eq {id : ComponentId}
    {component : Component phase} (present : small.components[id.index]? = some component) :
    large.component (new.component id) = (small.component id).rename new := by
  rw [Specification.component_eq present]
  exact Specification.component_eq (embeds.components id component present)

theorem rename_mem_sequences (member : sequence ∈ small.sequences.toList) :
    sequence.rename new ∈ large.sequences.toList := by
  obtain ⟨index, found⟩ := List.getElem?_of_mem member
  rw [Array.getElem?_toList] at found
  exact mem_sequences (embeds.sequences ⟨index⟩ sequence found)

end

/-- The record class of a sequence that is there. -/
theorem recordClass_eq {small large : Specification .resolved} (embeds : Embeds new small large)
    {id : SequenceId} {sequence : RecordSequence}
    (present : small.sequences[id.index]? = some sequence) :
    large.recordClass (new.sequence id) = small.recordClass id := by
  rw [recordClass, embeds.sequence_eq present]
  rfl

end Specification.Embeds

/-! Sorting by order keys does not see handles. -/

private theorem mergeSort_map_rename {α : Type} (values : List α) (rename : α → α) (order : α → Nat)
    (kept : ∀ value, order (rename value) = order value) :
    (values.map rename).mergeSort (fun first second => order first ≤ order second) =
      (values.mergeSort fun first second => order first ≤ order second).map rename := by
  refine (List.map_mergeSort fun first _ second _ => ?_).symm
  rw [kept, kept]

namespace Specification.Embeds

variable {new : Renaming} {small large : Specification phase} {sequence : RecordSequence}
  (embeds : Embeds new small large) (wellFormed : small.WellFormed)
  (member : sequence ∈ small.sequences.toList)

include embeds wellFormed member

theorem fields_eq : (sequence.rename new).fields.map large.field =
    (sequence.fields.map small.field).map (Field.rename new) := by
  obtain ⟨fields, -, lead, -⟩ := (wellFormed.sequences sequence member).record
  simp only [RecordSequence.rename, List.map_map]
  refine List.map_congr_left fun id listed => ?_
  obtain ⟨field, -, found⟩ := exists_right_of_mem lead listed
  exact embeds.field_eq found

theorem references_eq : (sequence.rename new).references.map large.reference =
    (sequence.references.map small.reference).map (Reference.rename new) := by
  obtain ⟨-, references, -, lead, -⟩ := (wellFormed.sequences sequence member).record
  simp only [RecordSequence.rename, List.map_map]
  refine List.map_congr_left fun id listed => ?_
  obtain ⟨reference, -, found⟩ := exists_right_of_mem lead listed
  exact embeds.reference_eq found

theorem setters_eq : (sequence.rename new).setters.map large.component =
    (sequence.setters.map small.component).map (Component.rename new) := by
  obtain ⟨setters, lead, -⟩ := (wellFormed.sequences sequence member).setters
  simp only [RecordSequence.rename, List.map_map]
  refine List.map_congr_left fun id listed => ?_
  obtain ⟨setter, -, found⟩ := exists_right_of_mem lead listed
  exact embeds.component_eq found

/-- The order of the fields is kept. -/
theorem orderedFields_eq : large.orderedFields (sequence.rename new) =
    (small.orderedFields sequence).map (Field.rename new) := by
  unfold orderedFields
  rw [embeds.fields_eq wellFormed member]
  exact mergeSort_map_rename _ _ Field.order fun _ => rfl

theorem orderedReferences_eq : large.orderedReferences (sequence.rename new) =
    (small.orderedReferences sequence).map (Reference.rename new) := by
  unfold orderedReferences
  rw [embeds.references_eq wellFormed member]
  exact mergeSort_map_rename _ _ Reference.order fun _ => rfl

theorem orderedSetters_eq : large.orderedSetters (sequence.rename new) =
    (small.orderedSetters sequence).map (Component.rename new) := by
  unfold orderedSetters
  rw [embeds.setters_eq wellFormed member]
  exact mergeSort_map_rename _ _ Component.order fun _ => rfl

end Specification.Embeds

end Recordgen
