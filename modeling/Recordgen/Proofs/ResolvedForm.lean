import Recordgen.Proofs.Resolution

/-! # The form of a resolved specification

Resolution changes no handle, so a resolved specification is as well formed as the raw one was. In
addition its links lead somewhere: a function link to a function of the specification, and the
setter of a field to a field setter (`Specification.Linked`).
-/

namespace Recordgen

/-- A resolved specification whose handles and links lead to parts of the right sort. -/
structure Specification.Linked (spec : Specification .resolved) : Prop where
  wellFormed : spec.WellFormed
  functions : ∀ component ∈ spec.components.toList, ∀ id : ComponentId,
    @Argument.functionRef .resolved id ∈ component.items → id ∈ spec.functions.values
  setters : ∀ field ∈ spec.fields.toList, ∀ id ∈ field.setter,
    ∃ setter ∈ spec.components.toList, setter.id = id ∧ setter.kind = .fieldSetter

namespace Linking

variable {spec : Specification .raw} {targets : List SequenceId} {component : Component .raw}
  {before : Argument .raw} {after : Argument .resolved}

private theorem ItemResolved.component?_eq
    (related : ItemResolved spec targets component before after) :
    after.component? = before.component? ∧ after.children = before.children ∧
      after.items = [after] := by
  cases related <;> exact ⟨rfl, rfl, rfl⟩

theorem ArgumentResolved.children_eq
    (related : ArgumentResolved spec targets component before after) :
    after.children = before.children := by
  cases related with
  | item related => exact related.component?_eq.2.1
  | collection related =>
      rw [Argument.children, Argument.children, List.filterMap_eq_flatMap_toList,
        List.filterMap_eq_flatMap_toList]
      exact flatMap_eq_of_forall₂ related fun _ _ same => congrArg _ same.component?_eq.1

/-- Resolution leaves what is nested in a component as it is. -/
theorem ComponentResolved.children_eq {image : Component .resolved}
    (related : ComponentResolved spec targets component image) :
    image.children = component.children :=
  flatMap_eq_of_forall₂ related.arguments fun _ _ same => same.2.children_eq

/-- What is nested is of the same kind as before. -/
def SameKinds (arena : List (Component .raw)) (images : List (Component .resolved)) : Prop :=
  ∀ (index : Nat) (child : Component .raw), arena[index]? = some child →
    ∃ image, images[index]? = some image ∧ image.kind = child.kind

section

variable {arena : List (Component .raw)} {images : List (Component .resolved)}
  (kept : SameKinds arena images) {before : Argument .raw} {after : Argument .resolved}

include kept

theorem ItemResolved.holds (related : ItemResolved spec targets component before after)
    {kind : ItemKind} (holds : before.Holds arena kind) : after.Holds images kind := by
  cases related with
  | literal literal =>
      cases holds with
      | literal _ parsed => exact .literal literal parsed
  | component id =>
      cases holds with
      | nested category _ child present admitted =>
          obtain ⟨image, found, same⟩ := kept _ child present
          exact .nested category id image found (same ▸ admitted)
  | fieldRef name link =>
      cases holds
      exact @Argument.Holds.fieldRef .resolved _ link
  | referenceRef name link =>
      cases holds
      exact @Argument.Holds.referenceRef .resolved _ link
  | functionRef name function =>
      cases holds
      exact @Argument.Holds.functionRef .resolved _ function

theorem ArgumentResolved.fits (related : ArgumentResolved spec targets component before after)
    {kind : ArgumentKind} (fits : before.Fits arena kind) : after.Fits images kind := by
  cases fits with
  | single item argument holds =>
      cases related with
      | item related => exact .single item after (related.holds kept holds)
      | collection => cases holds
  | collection item items filled holds =>
      cases related with
      | item related => cases related
      | collection related =>
          refine .collection item _ ?_ ?_
          · rintro rfl
            cases related
            exact filled rfl
          · intro image member
            obtain ⟨argument, present, same⟩ := exists_left_of_mem related member
            exact same.holds kept (holds argument present)

/-- A component that conforms still does so once resolved. -/
theorem ComponentResolved.conforms
    {image : Component .resolved} (related : ComponentResolved spec targets component image)
    (conforms : component.Conforms arena) : image.Conforms images where
  keys := by
    rw [related.kind, ← conforms.keys]
    exact map_eq_map_of_forall₂ related.arguments fun _ _ same => same.1
  fits := by
    rw [related.kind]
    have both := conforms.fits
    generalize component.kind.entry.schema = schema at both
    have arguments := related.arguments
    generalize component.arguments = before, image.arguments = after at both arguments
    induction both generalizing after with
    | nil =>
        cases arguments
        exact .nil
    | cons fits _ ih =>
        cases arguments with
        | cons here rest => exact .cons (here.2.fits kept fits) (ih _ rest)
  types := by
    rw [related.kind]
    intro name listed
    obtain ⟨type, found⟩ := conforms.types name listed
    refine ⟨type, ?_⟩
    rw [Component.literalParameter?, related.attributes]
    exact found
  sizes := by
    rw [related.kind, related.attributes]
    intro name listed
    obtain ⟨size, positive, stored, lengths⟩ := conforms.sizes name listed
    refine ⟨size, positive, stored, fun key items member => ?_⟩
    obtain ⟨⟨other, argument⟩, present, -, same⟩ := exists_left_of_mem related.arguments member
    cases same with
    | item same => cases same
    | collection same =>
        rw [← same.length_eq]
        exact lengths other _ present

end

/-- Two fields that differ in their setters only. -/
def SameField (field attached : Field) : Prop :=
  attached = { field with setter := attached.setter }

/-- What does not look at the setter is the same. -/
theorem SameField.congr {γ : Type} {field attached : Field} (read : Field → γ)
    (blind : ∀ (field : Field) setter, read { field with setter := setter } = read field)
    (same : SameField field attached) : read attached = read field := by
  rw [same]
  exact blind field attached.setter

private theorem SameField.recordFields {enumSets : KeyMap ComponentId} {owner : SequenceId}
    {fields images : List Field} (all : List.Forall₂ SameField fields images)
    (record : RecordFields enumSets owner fields) : RecordFields enumSets owner images where
  identifier := by
    obtain ⟨first, rest, rfl, implicit, named, typed, stored, plain⟩ := record.identifier
    obtain ⟨image, others, here, later, rfl⟩ := List.forall₂_cons_left_iff.mp all
    refine ⟨image, others, rfl, ?_, ?_, ?_, ?_, ?_⟩
    · rw [here]
      exact implicit
    · rw [here]
      exact named
    · rw [here]
      exact typed
    · rw [here]
      exact stored
    · intro field member
      obtain ⟨original, present, same⟩ := exists_left_of_mem later member
      rw [same]
      exact plain original present
  orders := by
    rw [map_eq_map_of_forall₂ all fun _ _ => SameField.congr Field.order fun _ _ => rfl,
      ← all.length_eq]
    exact record.orders
  owners := by
    intro field member
    obtain ⟨original, present, same⟩ := exists_left_of_mem all member
    rw [same]
    exact record.owners original present
  enumSets := by
    intro field member
    obtain ⟨original, present, same⟩ := exists_left_of_mem all member
    rw [same]
    exact record.enumSets original present

section Resolved

variable {result : Specification .resolved}

section

variable (resolved : Resolved spec result)

include resolved

theorem Resolved.exists_component {index : Nat}
    (present : spec.components[index]? = some component) :
    ∃ image, result.components[index]? = some image ∧
      ComponentResolved spec (result.references.toList.map Reference.target) component image := by
  rw [← Array.getElem?_toList] at present
  obtain ⟨image, found, related⟩ := forall₂_getElem? resolved.components present
  exact ⟨image, Array.getElem?_toList.symm.trans found, related⟩

private theorem Resolved.hasRoot {category : Category}
    {owner : Option SequenceId} {id : ComponentId} (rooted : spec.HasRoot category owner id) :
    result.HasRoot category owner id := by
  obtain ⟨component, present, sort, owned⟩ := rooted
  obtain ⟨image, found, related⟩ := resolved.exists_component present
  exact ⟨image, found, related.kind ▸ sort, related.owner ▸ owned⟩

private theorem Resolved.sameKinds :
    SameKinds spec.components.toList result.components.toList := by
  intro index child present
  obtain ⟨image, found, related⟩ := forall₂_getElem? resolved.components present
  exact ⟨image, found, related.kind⟩

/-- A well-formed sequence stays so once resolved. -/
theorem Resolved.sequence {sequence : RecordSequence}
    (wellFormed : sequence.WellFormed spec) : sequence.WellFormed result where
  record := by
    obtain ⟨fields, references, leadFields, leadReferences, record, linked, distinct⟩ :=
      wellFormed.record
    obtain ⟨images, leadImages, sames⟩ := forall₂_follow
      (fun id field => result.fields[FieldId.index id]? = some field) SameField leadFields
      (fun id field present => by
        rw [← Array.getElem?_toList] at present
        obtain ⟨image, found, same⟩ := forall₂_getElem? resolved.fields present
        exact ⟨image, Array.getElem?_toList.symm.trans found, same⟩)
    obtain ⟨links, leadLinks, alike⟩ := forall₂_follow
      (fun id reference => result.references[ReferenceId.index id]? = some reference)
      (ReferenceResolved spec) leadReferences (fun id reference present => by
        rw [← Array.getElem?_toList] at present
        obtain ⟨image, found, same⟩ := forall₂_getElem? resolved.references present
        exact ⟨image, Array.getElem?_toList.symm.trans found, same⟩)
    refine ⟨images, links, leadImages, leadLinks, ?_, ⟨?_, ?_⟩, ?_⟩
    · rw [resolved.enumSets]
      exact SameField.recordFields sames record
    · rw [map_eq_map_of_forall₂ alike fun _ _ same => same.order, ← alike.length_eq]
      exact linked.orders
    · intro reference member
      obtain ⟨original, present, same⟩ := exists_left_of_mem alike member
      rw [same.owner]
      exact linked.owners original present
    · rw [map_eq_map_of_forall₂ sames fun _ _ => SameField.congr Field.name fun _ _ => rfl,
        map_eq_map_of_forall₂ alike fun _ _ same => same.name]
      exact distinct
  setters := by
    obtain ⟨setters, lead, chain⟩ := wellFormed.setters
    obtain ⟨images, leads, alike⟩ := forall₂_follow _ _ lead
      fun _ _ present => resolved.exists_component present
    refine ⟨images, leads, ⟨?_, ?_, ?_, ?_⟩⟩
    · rw [map_eq_map_of_forall₂ alike fun _ _ same => same.order, ← alike.length_eq]
      exact chain.orders
    · rw [map_eq_map_of_forall₂ alike fun _ _ same => same.key]
      exact chain.keys
    · intro setter member
      obtain ⟨original, present, same⟩ := exists_left_of_mem alike member
      rw [same.owner]
      exact chain.owners original present
    · intro setter member
      obtain ⟨original, present, same⟩ := exists_left_of_mem alike member
      rw [same.kind]
      exact chain.categories original present
  outputFormat := fun id member => resolved.hasRoot (wellFormed.outputFormat id member)
  estimator := fun id member => resolved.hasRoot (wellFormed.estimator id member)
  sequenceIterator := fun id member => resolved.hasRoot (wellFormed.sequenceIterator id member)
  estimated := wellFormed.estimated
  unsupported := wellFormed.unsupported

private theorem Resolved.roots_eq : result.roots = spec.roots := by
  rw [Specification.roots, Specification.roots, resolved.functions, resolved.enumSets,
    resolved.sequences]

/-- A resolved specification is well formed. -/
theorem Resolved.wellFormed (wellFormed : spec.WellFormed) :
    result.WellFormed where
  sequenceIds := resolved.sequences ▸ wellFormed.sequenceIds
  sequenceKeys := resolved.sequences ▸ wellFormed.sequenceKeys
  fieldIds := by
    rw [map_eq_map_of_forall₂ resolved.fields fun _ _ => SameField.congr Field.id fun _ _ => rfl,
      wellFormed.fieldIds, ← Array.length_toList, ← Array.length_toList,
      resolved.fields.length_eq]
  referenceIds := by
    rw [map_eq_map_of_forall₂ resolved.references fun _ _ same => same.id,
      wellFormed.referenceIds, ← Array.length_toList, ← Array.length_toList,
      resolved.references.length_eq]
  fieldsListed := by
    rw [map_eq_map_of_forall₂ resolved.fields fun _ _ => SameField.congr Field.id fun _ _ => rfl,
      resolved.sequences, wellFormed.fieldsListed]
  referencesListed := by
    rw [map_eq_map_of_forall₂ resolved.references fun _ _ same => same.id, resolved.sequences,
      wellFormed.referencesListed]
  forest := by
    obtain ⟨roots, forest, same⟩ := wellFormed.forest
    refine ⟨roots, forest.transport ?_, resolved.roots_eq ▸ same⟩
    exact resolved.components.imp fun _ _ related =>
      ⟨related.id, related.parent, related.owner, related.children_eq⟩
  conform := by
    intro image member
    obtain ⟨original, present, related⟩ := exists_left_of_mem resolved.components member
    exact related.conforms resolved.sameKinds (wellFormed.conform original present)
  functions := by
    rw [resolved.functions]
    exact fun id member => resolved.hasRoot (wellFormed.functions id member)
  enumSets := by
    rw [resolved.enumSets]
    exact fun id member => resolved.hasRoot (wellFormed.enumSets id member)
  sequences := by
    rw [resolved.sequences]
    exact fun sequence member => resolved.sequence (wellFormed.sequences sequence member)

end

/-- A function link of a resolved component leads to a function. -/
theorem ComponentResolved.function_mem {image : Component .resolved}
    (related : ComponentResolved spec targets component image) {id : ComponentId}
    (held : @Argument.functionRef .resolved id ∈ image.items) : id ∈ spec.functions.values := by
  have item : ∀ before, ItemResolved spec targets component before
      (@Argument.functionRef .resolved id) → id ∈ spec.functions.values := by
    intro before same
    cases same with
    | functionRef name _ found => exact KeyMap.mem_values_of_get? found
  obtain ⟨entry, present, inside⟩ := List.mem_flatMap.mp held
  obtain ⟨argument, -, -, same⟩ := exists_left_of_mem related.arguments present
  generalize entry.2 = after, argument.2 = before at inside same
  cases same with
  | item same =>
      rw [same.component?_eq.2.2] at inside
      obtain rfl := List.mem_singleton.mp inside
      exact item _ same
  | collection same =>
      obtain ⟨before, -, same⟩ := exists_left_of_mem same inside
      exact item before same

/-- **A run of resolution gives a linked specification.** -/
theorem linked_of_run (assembled : Prototype.Assembled spec) {summary : Summary}
    (ran : run spec = .ok (result, summary)) : result.Linked := by
  obtain ⟨resolved, attached⟩ := resolved_of_run assembled ran
  refine ⟨resolved.wellFormed assembled.wellFormed, ?_, ?_⟩
  · intro image member id held
    obtain ⟨original, -, related⟩ := exists_left_of_mem resolved.components member
    rw [resolved.functions]
    exact related.function_mem held
  · intro field member id bound
    obtain ⟨original, -, -, known⟩ := exists_left_of_mem attached member
    have listed := assembled.wellFormed.fieldSetters_perm.mem_iff.mp (known id bound)
    obtain ⟨setter, present, rfl⟩ := List.mem_map.mp listed
    obtain ⟨present, sort⟩ := List.mem_filter.mp present
    obtain ⟨image, found, related⟩ := exists_right_of_mem resolved.components present
    exact ⟨image, found, related.id, related.kind.trans (beq_iff_eq.mp sort)⟩

end Resolved

end Linking

end Recordgen
