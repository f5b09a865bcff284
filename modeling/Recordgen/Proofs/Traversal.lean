import Mathlib.Data.List.Flatten
import Recordgen.Linking.Site
import Recordgen.Proofs.WellFormed

/-! # What a walk meets

A walk over a well-formed specification enters every component once (`entered_perm`), and the field
setters that it enters are all the field setters there are (`fieldSetters_perm`). The order of the
walk is not that of the arena, so both are stated up to order.
-/

namespace Recordgen

variable {phase : Phase}

open Linking (enteredComponent? enteredSetter?)

/-- The roots of a forest stand in the order of its components. -/
theorem Forest.roots_sublist {parent : Option ComponentId} {base : Nat} {roots : List ComponentId}
    {components : List (Component phase)} (forest : Forest parent base roots components) :
    roots.Sublist (components.map Component.id) := by
  induction forest with
  | nil => exact List.Sublist.refl _
  | tree root numbered _ _ _ _ _ othersIh =>
      rw [List.map_cons, numbered, List.map_append]
      exact (othersIh.trans (List.sublist_append_right _ _)).cons_cons _

/-- Nothing in the catalogue is nested as a setter. -/
theorem NestedCategory.category_ne_setter (category : NestedCategory) :
    category.category ≠ .setter := by
  cases category <;> decide

/-- Components of these categories hold no others. -/
def Category.isFlat : Category → Bool
  | .function | .enumSet | .cardinalityEstimator | .sequenceIterator | .outputFormat => true
  | _ => false

private theorem Kind.item_ne_nested {kind : Kind} {category : NestedCategory} {entry : SchemaEntry}
    (flat : kind.entry.category.isFlat = true) (member : entry ∈ kind.entry.schema) :
    entry.kind.item ≠ .nested category := by
  revert entry
  cases kind <;> first | (exact absurd flat (by decide)) | (cases category <;> decide)

namespace Specification

variable {spec : Specification phase} {α : Type} {select : WalkEvent → Option α}

private theorem filterMap_visits (ids : List ComponentId) :
    (ids.flatMap visits).filterMap enteredComponent? = ids := by
  induction ids with
  | nil => rfl
  | cons id ids ih =>
      rw [List.flatMap_cons, List.filterMap_append, ih]
      rfl

/-- What a walk gives is what its ends and its inside give. -/
theorem filterMap_walkInside_eq (select : WalkEvent → Option α) (node : Node)
    (inside : List WalkEvent) :
    (walkInside node inside).filterMap select =
      (select (.enter node)).toList ++ inside.filterMap select ++
        (select (.leave node)).toList := by
  rw [walkInside, List.cons_append, List.filterMap_cons, List.filterMap_append]
  cases select (.enter node) <;> cases left : select (.leave node) <;> simp [left]

theorem filterMap_walkInside {node : Node} {inside : List WalkEvent}
    (left : select (.leave node) = none) :
    (walkInside node inside).filterMap select =
      (select (.enter node)).toList ++ inside.filterMap select := by
  rw [filterMap_walkInside_eq, left, Option.toList_none, List.append_nil]

private theorem entered_walkComponent (id : ComponentId) :
    ((spec.walkComponent id).filterMap enteredComponent?).Perm (spec.subtree id) := by
  have events : (spec.walkComponent id).Perm ((spec.subtree id).flatMap visits) :=
    walkComponent_perm id
  have entered := events.filterMap enteredComponent?
  rwa [filterMap_visits] at entered

private theorem entered_flatMap {walked : α → List WalkEvent} {met : α → List ComponentId}
    {values : List α}
    (entered : ∀ value ∈ values, ((walked value).filterMap enteredComponent?).Perm (met value)) :
    ((values.flatMap walked).filterMap enteredComponent?).Perm (values.flatMap met) := by
  rw [List.filterMap_flatMap]
  exact List.Perm.flatMap_left _ entered

private theorem entered_walkSetter (follow : spec.ChildrenFollow) {setter : Component phase}
    (located : spec.component setter.id = setter) :
    ((spec.walkSetter setter).filterMap enteredComponent?).Perm (spec.subtree setter.id) := by
  rw [walkSetter, filterMap_walkInside rfl, subtree_eq follow, located]
  exact (entered_flatMap fun id _ => entered_walkComponent id).cons _

/-- The setters of a sequence in the order of a walk are the setters of the sequence. -/
theorem orderedSetters_perm (spec : Specification phase) (sequence : RecordSequence) :
    (spec.orderedSetters sequence).Perm (sequence.setters.map spec.component) :=
  List.mergeSort_perm _ _

theorem filterMap_leaves {β : Type} {values : List β} {node : β → Node}
    (entered : ∀ value, select (.enter (node value)) = none)
    (left : ∀ value, select (.leave (node value)) = none) :
    (values.flatMap fun value => walkInside (node value) []).filterMap select = [] := by
  rw [List.filterMap_flatMap, List.flatMap_eq_nil_iff]
  intro value _
  rw [filterMap_walkInside (left value), entered value]
  rfl

private theorem filterMap_walkComponent (spec : Specification phase)
    (entered : ∀ id, select (.enter (.component id)) = none)
    (left : ∀ id, select (.leave (.component id)) = none) (id : ComponentId) :
    (spec.walkComponent id).filterMap select = [] := by
  have events : (spec.walkComponent id).Perm ((spec.subtree id).flatMap visits) :=
    walkComponent_perm id
  have none : ((spec.subtree id).flatMap visits).filterMap select = [] := by
    rw [List.filterMap_flatMap, List.flatMap_eq_nil_iff]
    intro other _
    simp [visits, entered, left]
  exact List.Perm.eq_nil (none ▸ events.filterMap select)

/-- What is entered in a walk over a sequence, of which the components are not looked at. -/
theorem filterMap_walkSequence (spec : Specification phase) (sequence : RecordSequence)
    (left : ∀ node, select (.leave node) = none)
    (outside : ∀ id, select (.enter (.sequence id)) = none)
    (inside : ∀ id, select (.enter (.component id)) = none) :
    (spec.walkSequence sequence).filterMap select =
      ((spec.orderedFields sequence).filterMap fun field => select (.enter (.field field.id))) ++
      ((spec.orderedReferences sequence).filterMap fun reference =>
        select (.enter (.reference reference.id))) ++
      ((spec.orderedSetters sequence).filterMap fun setter =>
        select (.enter (.setter setter.id))) := by
  have nothing : ∀ ids : List ComponentId,
      (ids.flatMap spec.walkComponent).filterMap select = [] := by
    intro ids
    rw [List.filterMap_flatMap, List.flatMap_eq_nil_iff]
    exact fun id _ => spec.filterMap_walkComponent inside (fun id => left _) id
  have leaves : ∀ {β : Type} (values : List β) (node : β → Node),
      (values.flatMap fun value => walkInside (node value) []).filterMap select =
        values.filterMap fun value => select (.enter (node value)) := by
    intro β values node
    rw [List.filterMap_flatMap, List.filterMap_eq_flatMap_toList]
    refine List.flatMap_congr fun value _ => ?_
    rw [filterMap_walkInside (left _), List.filterMap_nil, List.append_nil]
  have setters : ((spec.orderedSetters sequence).flatMap spec.walkSetter).filterMap select =
      (spec.orderedSetters sequence).filterMap fun setter => select (.enter (.setter setter.id)) := by
    rw [List.filterMap_flatMap, List.filterMap_eq_flatMap_toList]
    refine List.flatMap_congr fun setter _ => ?_
    rw [walkSetter, filterMap_walkInside (left _), nothing, List.append_nil]
  rw [walkSequence, filterMap_walkInside (left _), outside, List.filterMap_append,
    List.filterMap_append, List.filterMap_append, leaves, leaves, setters]
  simp only [Option.toList_none, List.nil_append, List.flatMap_cons, List.flatMap_nil,
    List.append_nil, List.filterMap_append, nothing]

/-- A walk enters the setters of one sequence after the other, by order key. -/
theorem enteredSetters_eq (spec : Specification phase) :
    spec.walk.filterMap enteredSetter? =
      spec.sequences.toList.flatMap fun sequence =>
        (spec.orderedSetters sequence).map Component.id := by
  rw [walk, filterMap_walkInside rfl, List.filterMap_append, List.filterMap_append,
    List.filterMap_append, filterMap_leaves (fun _ => rfl) (fun _ => rfl),
    filterMap_leaves (fun _ => rfl) (fun _ => rfl),
    filterMap_leaves (fun _ => rfl) (fun _ => rfl), List.filterMap_flatMap]
  refine List.flatMap_congr fun sequence _ => ?_
  rw [spec.filterMap_walkSequence sequence (fun _ => rfl) (fun _ => rfl) (fun _ => rfl)]
  simp only [enteredSetter?, List.filterMap_none, List.nil_append, List.filterMap_eq_map']

namespace WellFormed

section

variable (wellFormed : spec.WellFormed) {sequence : RecordSequence} {id : ComponentId}
  {category : Category} {owner : Option SequenceId} {component : Component phase}

include wellFormed

/-- A setter of a sequence is a component with its own handle, and a setter. -/
theorem component_of_setter (member : sequence ∈ spec.sequences.toList)
    (setter : id ∈ sequence.setters) :
    spec.components[id.index]? = some (spec.component id) ∧ (spec.component id).id = id ∧
      (spec.component id).kind.entry.category = .setter ∧
      (spec.component id).owner = some sequence.id := by
  obtain ⟨setters, lead, chain⟩ := (wellFormed.sequences sequence member).setters
  obtain ⟨component, listed, present⟩ := exists_right_of_mem lead setter
  rw [component_eq present]
  exact ⟨present, wellFormed.id_of_getElem? present, chain.categories component listed,
    chain.owners component listed⟩

theorem map_setters (member : sequence ∈ spec.sequences.toList) :
    (sequence.setters.map spec.component).map Component.id = sequence.setters := by
  rw [List.map_map]
  refine (List.map_congr_left fun id setter => ?_).trans (List.map_id _)
  exact (wellFormed.component_of_setter member setter).2.1

/-- A walk over a sequence enters the trees that the sequence owns. -/
theorem entered_walkSequence (member : sequence ∈ spec.sequences.toList) :
    ((spec.walkSequence sequence).filterMap enteredComponent?).Perm
      (sequence.roots.flatMap spec.subtree) := by
  have setters : (((spec.orderedSetters sequence).flatMap spec.walkSetter).filterMap
      enteredComponent?).Perm (sequence.setters.flatMap spec.subtree) := by
    have each : ∀ setter ∈ spec.orderedSetters sequence,
        ((spec.walkSetter setter).filterMap enteredComponent?).Perm (spec.subtree setter.id) := by
      intro setter listed
      obtain ⟨id, present, rfl⟩ :=
        List.mem_map.mp ((spec.orderedSetters_perm sequence).mem_iff.mp listed)
      have same := (wellFormed.component_of_setter member present).2.1
      exact entered_walkSetter wellFormed.childrenFollow (by rw [same])
    refine (entered_flatMap each).trans ?_
    refine ((spec.orderedSetters_perm sequence).flatMap_right _).trans (List.Perm.of_eq ?_)
    rw [← List.flatMap_map Component.id spec.subtree, wellFormed.map_setters member]
  have single : ∀ id? : Option ComponentId,
      ((id?.toList.flatMap spec.walkComponent).filterMap enteredComponent?).Perm
        (id?.toList.flatMap spec.subtree) :=
    fun id? => entered_flatMap fun id _ => entered_walkComponent id
  rw [walkSequence, filterMap_walkInside rfl, List.filterMap_append, List.filterMap_append,
    List.filterMap_append, filterMap_leaves (fun _ => rfl) (fun _ => rfl),
    filterMap_leaves (fun _ => rfl) (fun _ => rfl)]
  simp only [enteredComponent?, Option.toList_none, List.nil_append, List.flatMap_cons,
    List.flatMap_nil, List.append_nil, List.filterMap_append, RecordSequence.roots,
    List.flatMap_append]
  have last := ((single sequence.estimator).append
    ((single sequence.sequenceIterator).append (single sequence.outputFormat)))
  refine (setters.append last).trans ?_
  -- The format is read first and walked last.
  have turned : ((sequence.setters.flatMap spec.subtree ++
      (sequence.estimator.toList.flatMap spec.subtree ++
        sequence.sequenceIterator.toList.flatMap spec.subtree)) ++
      sequence.outputFormat.toList.flatMap spec.subtree).Perm _ := List.perm_append_comm
  simpa only [List.append_assoc] using turned

/-- A component of a flat category is a tree of its own. -/
theorem subtree_of_isFlat (rooted : spec.HasRoot category owner id)
    (flat : category.isFlat = true) : spec.subtree id = [id] := by
  obtain ⟨component, present, rfl, -⟩ := rooted
  have member : component ∈ spec.components.toList :=
    Array.mem_toList_iff.mpr (Array.mem_of_getElem? present)
  have childless : component.children = [] := by
    refine List.eq_nil_iff_forall_not_mem.mpr fun child held => ?_
    obtain ⟨entry, listed, nested, _, item, -⟩ :=
      (wellFormed.conform component member).exists_of_mem_children held
    exact Kind.item_ne_nested flat listed item
  rw [subtree_eq wellFormed.childrenFollow, component_eq present, childless, List.flatMap_nil]

/-- **A walk enters every component once.** -/
theorem entered_perm :
    (spec.walk.filterMap enteredComponent?).Perm (spec.components.toList.map Component.id) := by
  have functions : ((spec.functions.values.flatMap fun id =>
      walkInside (.function id) []).filterMap enteredComponent?).Perm
        (spec.functions.values.flatMap spec.subtree) :=
    entered_flatMap fun id member => by
      rw [wellFormed.subtree_of_isFlat (wellFormed.functions id member) rfl]
      exact List.Perm.refl _
  have enumSets : ((spec.enumSets.values.flatMap fun id =>
      walkInside (.enumSet id) []).filterMap enteredComponent?).Perm
        (spec.enumSets.values.flatMap spec.subtree) :=
    entered_flatMap fun id member => by
      rw [wellFormed.subtree_of_isFlat (wellFormed.enumSets id member) rfl]
      exact List.Perm.refl _
  have sequences : ((spec.sequences.toList.flatMap spec.walkSequence).filterMap
      enteredComponent?).Perm
        (spec.sequences.toList.flatMap fun sequence => sequence.roots.flatMap spec.subtree) :=
    entered_flatMap fun sequence member => wellFormed.entered_walkSequence member
  refine List.Perm.trans ?_ wellFormed.flatMap_subtree_perm
  rw [walk, filterMap_walkInside rfl, List.filterMap_append, List.filterMap_append,
    List.filterMap_append, filterMap_leaves (fun _ => rfl) (fun _ => rfl), roots,
    List.flatMap_append, List.flatMap_append, List.flatMap_assoc]
  exact (functions.append enumSets).append sequences

private theorem category_of_hasRoot (member : component ∈ spec.components.toList)
    (rooted : spec.HasRoot category owner component.id) :
    component.kind.entry.category = category := by
  obtain ⟨found, present, sort, -⟩ := rooted
  rw [wellFormed.getElem?_id member] at present
  exact Option.some.inj present ▸ sort

/-- Every setter belongs to the chain of a sequence. -/
theorem exists_sequence_of_setter (member : component ∈ spec.components.toList)
    (sort : component.kind.entry.category = .setter) :
    ∃ sequence ∈ spec.sequences.toList, component.id ∈ sequence.setters := by
  obtain ⟨roots, forest, same⟩ := wellFormed.forest
  rcases forest.root_or_child member with ⟨-, root⟩ | ⟨holder, holding, -, child, -⟩
  · rw [same.mem_iff, Specification.roots, List.mem_append, List.mem_append] at root
    rcases root with (function | enumSet) | part
    · have other := wellFormed.category_of_hasRoot member (wellFormed.functions _ function)
      cases sort.symm.trans other
    · have other := wellFormed.category_of_hasRoot member (wellFormed.enumSets _ enumSet)
      cases sort.symm.trans other
    · obtain ⟨sequence, listed, part⟩ := List.mem_flatMap.mp part
      have shaped := wellFormed.sequences sequence listed
      simp only [RecordSequence.roots, List.mem_append, Option.mem_toList] at part
      rcases part with ((format | setter) | estimator) | iterator
      · have other := wellFormed.category_of_hasRoot member (shaped.outputFormat _ format)
        cases sort.symm.trans other
      · exact ⟨sequence, listed, setter⟩
      · have other := wellFormed.category_of_hasRoot member (shaped.estimator _ estimator)
        cases sort.symm.trans other
      · have other := wellFormed.category_of_hasRoot member (shaped.sequenceIterator _ iterator)
        cases sort.symm.trans other
  · obtain ⟨entry, -, nested, found, -, present, other⟩ :=
      (wellFormed.conform holder holding).exists_of_mem_children child
    rw [Array.getElem?_toList, wellFormed.getElem?_id member] at present
    obtain rfl := Option.some.inj present
    exact absurd (other.symm.trans sort) nested.category_ne_setter

theorem ids_eq :
    spec.components.toList.map Component.id =
      (List.range spec.components.size).map ComponentId.mk := by
  refine List.ext_getElem (by simp) fun index inside _ => ?_
  rw [List.getElem_map, List.getElem_map, List.getElem_range]
  refine wellFormed.id_of_getElem? ?_
  rw [← Array.getElem?_toList]
  exact List.getElem?_eq_getElem (by simpa using inside)

/-- No two components have the same handle. -/
theorem ids_nodup :
    (spec.components.toList.map Component.id).Nodup := by
  rw [wellFormed.ids_eq]
  exact List.nodup_range.map fun _ _ same => congrArg ComponentId.index same

private theorem setters_nodup :
    (spec.sequences.toList.flatMap RecordSequence.setters).Nodup := by
  obtain ⟨roots, forest, same⟩ := wellFormed.forest
  have all : spec.roots.Nodup :=
    same.nodup_iff.mp (wellFormed.ids_nodup.sublist forest.roots_sublist)
  refine all.sublist (List.Sublist.trans ?_ (List.sublist_append_right _ _))
  refine List.Sublist.flatMap_right _ fun sequence _ => ?_
  rw [RecordSequence.roots, List.append_assoc, List.append_assoc]
  exact (List.sublist_append_left _ _).trans (List.sublist_append_right _ _)

private theorem entered_setters :
    (spec.walk.filterMap enteredSetter?).Perm
      (spec.sequences.toList.flatMap RecordSequence.setters) := by
  rw [spec.enteredSetters_eq]
  refine List.Perm.flatMap_left _ fun sequence member => ?_
  have ordered := (spec.orderedSetters_perm sequence).map Component.id
  rwa [wellFormed.map_setters member] at ordered

end

/-- **The field setters that a walk enters are the field setters of the arena.** -/
theorem fieldSetters_perm {spec : Specification .raw} (wellFormed : spec.WellFormed) :
    (Linking.fieldSetters spec).Perm
      ((spec.components.toList.filter fun component => component.kind == .fieldSetter).map
        Component.id) := by
  have entered := wellFormed.entered_setters
  refine (List.perm_ext_iff_of_nodup ?_ ?_).mpr fun id => ?_
  · exact (entered.nodup_iff.mpr wellFormed.setters_nodup).filter _
  · exact wellFormed.ids_nodup.sublist (List.filter_sublist.map Component.id)
  · simp only [Linking.fieldSetters, List.mem_filter, entered.mem_iff, List.mem_flatMap,
      List.mem_map, beq_iff_eq]
    constructor
    · rintro ⟨⟨sequence, member, setter⟩, sort⟩
      obtain ⟨present, same, -⟩ := wellFormed.component_of_setter member setter
      exact ⟨spec.component id, ⟨Array.mem_toList_iff.mpr (Array.mem_of_getElem? present), sort⟩,
        same⟩
    · rintro ⟨component, ⟨member, sort⟩, rfl⟩
      have setter : component.kind.entry.category = .setter := by
        rw [sort]
        rfl
      exact ⟨wellFormed.exists_sequence_of_setter member setter,
        (congrArg Component.kind (wellFormed.component_id member)).trans sort⟩

end WellFormed

end Specification

end Recordgen
