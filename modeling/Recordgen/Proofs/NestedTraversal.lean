import Recordgen.Proofs.Declarations
import Recordgen.Proofs.FollowedPaths
import Recordgen.Proofs.Recording

/-! # What a traversal meets

A traversal meets every part of an accepted document once: the specification itself, its parameters,
sequences, fields and references, and every component, as a function, an enumeration, a setter or as
a part of something else (`Specification.nodes`). It enters and leaves them properly nested
(`WellNested`). Under a component the nodes are entered in the order of the subtree, and everything
that a component holds is left before the component is.
-/

namespace Recordgen

variable {phase : Phase}

/-- Every node that is entered is left again, and what is entered in between is left in between. -/
inductive WellNested : List WalkEvent → Prop
  | nil : WellNested []
  | node (node : Node) {inside behind : List WalkEvent} (within : WellNested inside)
      (next : WellNested behind) : WellNested (walkInside node inside ++ behind)

namespace WellNested

variable {first second inside : List WalkEvent}

theorem append (before : WellNested first) (after : WellNested second) :
    WellNested (first ++ second) := by
  induction before with
  | nil => exact after
  | node node within _ _ ih =>
      rw [List.append_assoc]
      exact .node node within ih

theorem walkInside (node : Node) (within : WellNested inside) :
    WellNested (walkInside node inside) := by
  rw [← List.append_nil (Recordgen.walkInside node inside)]
  exact .node node within .nil

theorem flatMap {α : Type} {values : List α} {events : α → List WalkEvent}
    (each : ∀ value, WellNested (events value)) : WellNested (values.flatMap events) := by
  induction values with
  | nil => exact .nil
  | cons value values ih =>
      rw [List.flatMap_cons]
      exact (each value).append ih

theorem leaves {α : Type} (values : List α) (node : α → Node) :
    WellNested (values.flatMap fun value => Recordgen.walkInside (node value) []) :=
  flatMap fun value => walkInside (node value) .nil

end WellNested

namespace Specification

variable (spec : Specification phase)

private theorem wellNested_walkComponentTo (depth : Nat) (id : ComponentId) :
    WellNested (spec.walkComponentTo depth id) := by
  induction depth generalizing id with
  | zero => exact .walkInside _ .nil
  | succ depth ih => exact .walkInside _ (.flatMap ih)

private theorem wellNested_walkComponent (id : ComponentId) : WellNested (spec.walkComponent id) :=
  spec.wellNested_walkComponentTo spec.components.size id

private theorem wellNested_walkSequence (sequence : RecordSequence) :
    WellNested (spec.walkSequence sequence) := by
  refine .walkInside _ ((((WellNested.leaves _ _).append (.leaves _ _)).append ?_).append ?_)
  · exact .flatMap fun setter => .walkInside _ (.flatMap spec.wellNested_walkComponent)
  · exact .flatMap fun id? => .flatMap spec.wellNested_walkComponent

private theorem wellNested_walkFrom (start : TraversalStart) :
    WellNested (spec.walkFrom start) := by
  cases start with
  | component id => exact spec.wellNested_walkComponent id
  | sequence sequence => exact spec.wellNested_walkSequence sequence
  | specification =>
      refine .walkInside _ ((((WellNested.leaves _ _).append (.leaves _ _)).append
        (.leaves _ _)).append ?_)
      exact .flatMap spec.wellNested_walkSequence

end Specification

/-- The node as which a traversal meets a component. -/
def Component.node (component : Component phase) : Node :=
  match component.kind.entry.category with
  | .function => .function component.id
  | .enumSet => .enumSet component.id
  | .setter => .setter component.id
  | _ => .component component.id

/-- The nodes of a specification, each of them once. -/
def Specification.nodes (spec : Specification phase) : List Node :=
  .specification ::
    (spec.parameters.values.map (fun parameter => .parameter parameter.key) ++
    spec.sequences.toList.map (fun sequence => .sequence sequence.id) ++
    spec.fields.toList.map (fun field => .field field.id) ++
    spec.references.toList.map (fun reference => .reference reference.id) ++
    spec.components.toList.map Component.node)

/-- The events are those of entering and leaving the nodes, in some order. -/
def Meets (events : List WalkEvent) (nodes : List Node) : Prop :=
  events.Perm (nodes.flatMap fun node => [.enter node, .leave node])

namespace Meets

variable {first second inside : List WalkEvent} {nodes others : List Node}

theorem append (before : Meets first nodes) (after : Meets second others) :
    Meets (first ++ second) (nodes ++ others) := by
  rw [Meets, List.flatMap_append]
  exact List.Perm.append before after

theorem walkInside (node : Node) (within : Meets inside nodes) :
    Meets (walkInside node inside) (node :: nodes) :=
  (Specification.walkInside_perm node inside).trans (List.Perm.append_left _ within)

theorem leaf (node : Node) : Meets (Recordgen.walkInside node []) [node] :=
  .refl _

theorem flatMap {α : Type} {values : List α} {events : α → List WalkEvent} {met : α → List Node}
    (each : ∀ value ∈ values, Meets (events value) (met value)) :
    Meets (values.flatMap events) (values.flatMap met) := by
  rw [Meets, List.flatMap_assoc]
  exact List.Perm.flatMap_left _ each

theorem trans (meets : Meets first nodes) (same : nodes.Perm others) : Meets first others :=
  List.Perm.trans meets (same.flatMap_right _)

theorem leaves {α : Type} (values : List α) (node : α → Node) :
    Meets (values.flatMap fun value => Recordgen.walkInside (node value) []) (values.map node) := by
  rw [List.map_eq_flatMap]
  exact flatMap fun value _ => leaf (node value)

/-- A node is entered as often as it is listed, and it is left as often. -/
theorem count_eq (meets : Meets first nodes) (node : Node) :
    first.count (.enter node) = nodes.count node ∧
      first.count (.leave node) = nodes.count node := by
  rw [List.Perm.count_eq meets, List.Perm.count_eq meets]
  clear meets
  induction nodes with
  | nil => exact ⟨rfl, rfl⟩
  | cons other nodes ih =>
      rw [List.flatMap_cons, List.count_append, List.count_append, ih.1, ih.2]
      by_cases same : other = node
      · subst same
        simp [Nat.add_comm]
      · simp [same]

end Meets

namespace Specification

variable {spec : Specification phase}

private theorem meets_walkComponent (id : ComponentId) :
    Meets (spec.walkComponent id) ((spec.subtree id).map Node.component) := by
  rw [Meets, List.flatMap_map]
  exact walkComponent_perm id

private theorem category_component {category : Category} {owner : Option SequenceId}
    {id : ComponentId} (rooted : spec.HasRoot category owner id) :
    (spec.component id).kind.entry.category = category := by
  obtain ⟨component, present, sort, -⟩ := rooted
  rw [component_eq present]
  exact sort

namespace WellFormed

section

variable (wellFormed : spec.WellFormed) {category : Category} {owner : Option SequenceId}
  {id : ComponentId} {sequence : RecordSequence}

include wellFormed

private theorem id_of_hasRoot (rooted : spec.HasRoot category owner id) :
    (spec.component id).id = id := by
  obtain ⟨component, present, -⟩ := rooted
  rw [component_eq present]
  exact wellFormed.id_of_getElem? present

/-- What a component holds is met as a part of it. -/
theorem node_of_held {holder : ComponentId} (held : id ∈ (spec.component holder).children) :
    (spec.component id).node = .component id := by
  obtain ⟨-, -, -, placed, -, -, -, entry, -, category, -, sort⟩ := wellFormed.held held
  rw [Component.node, sort, placed]
  cases category <;> rfl

/-- The nodes of a tree below its root. -/
theorem map_node_below (holder : ComponentId) :
    ((spec.component holder).children.flatMap spec.subtree).map
        (fun id => (spec.component id).node) =
      ((spec.component holder).children.flatMap spec.subtree).map Node.component := by
  refine List.map_congr_left fun id inside => ?_
  obtain ⟨child, held, inside⟩ := List.mem_flatMap.mp inside
  exact subtree_induction (fun id => (spec.component id).node = .component id)
    (wellFormed.node_of_held held) (fun _ _ _ held => wellFormed.node_of_held held) id inside

private theorem map_node_subtree (root : ComponentId) :
    (spec.subtree root).map (fun id => (spec.component id).node) =
      (spec.component root).node ::
        ((spec.component root).children.flatMap spec.subtree).map Node.component := by
  rw [subtree_eq wellFormed.childrenFollow, List.map_cons, wellFormed.map_node_below]

/-- The tree of a root that is no function, enumeration or setter. -/
theorem meets_part {root : ComponentId}
    (part : (spec.component root).node = .component root) :
    Meets (spec.walkComponent root)
      ((spec.subtree root).map fun id => (spec.component id).node) := by
  rw [wellFormed.map_node_subtree, part, ← List.map_cons, ← subtree_eq wellFormed.childrenFollow]
  exact spec.meets_walkComponent root

private theorem meets_walkSetter (member : sequence ∈ spec.sequences.toList)
    (setter : id ∈ sequence.setters) :
    Meets (spec.walkSetter (spec.component id))
      ((spec.subtree id).map fun id => (spec.component id).node) := by
  obtain ⟨-, placed, sort, -⟩ := wellFormed.component_of_setter member setter
  have met : (spec.component id).node = .setter id := by
    rw [Component.node, sort, placed]
  rw [wellFormed.map_node_subtree, met, walkSetter, placed, List.map_flatMap]
  exact .walkInside _ (.flatMap fun child _ => spec.meets_walkComponent child)

private theorem meets_leaf (rooted : spec.HasRoot category owner id) (flat : category.isFlat = true)
    {node : Node} (met : (spec.component id).node = node) :
    Meets (walkInside node []) ((spec.subtree id).map fun id => (spec.component id).node) := by
  rw [wellFormed.subtree_of_isFlat rooted flat, List.map_singleton, met]
  exact .leaf node

private theorem map_fields (member : sequence ∈ spec.sequences.toList) :
    ((spec.orderedFields sequence).map Field.id).Perm sequence.fields := by
  refine ((List.mergeSort_perm _ _).map Field.id).trans (List.Perm.of_eq ?_)
  rw [List.map_map]
  refine (List.map_congr_left fun id listed => ?_).trans (List.map_id _)
  rw [← wellFormed.sequence_id member] at listed
  exact (wellFormed.field_of_listed listed).2.1

private theorem map_references (member : sequence ∈ spec.sequences.toList) :
    ((spec.orderedReferences sequence).map Reference.id).Perm sequence.references := by
  refine ((List.mergeSort_perm _ _).map Reference.id).trans (List.Perm.of_eq ?_)
  rw [List.map_map]
  refine (List.map_congr_left fun id listed => ?_).trans (List.map_id _)
  rw [← wellFormed.sequence_id member] at listed
  exact (wellFormed.reference_of_listed listed).2.1

/-- The nodes that a sequence contributes. -/
theorem meets_walkSequence (member : sequence ∈ spec.sequences.toList) :
    Meets (spec.walkSequence sequence)
      ([Node.sequence sequence.id] ++ (sequence.fields.map Node.field ++
        (sequence.references.map Node.reference ++
          (sequence.roots.flatMap spec.subtree).map fun id => (spec.component id).node))) := by
  have shaped := wellFormed.sequences sequence member
  have fields : Meets
      ((spec.orderedFields sequence).flatMap fun field => walkInside (.field field.id) [])
      (sequence.fields.map Node.field) := by
    refine (Meets.leaves _ _).trans ?_
    have same := (wellFormed.map_fields member).map Node.field
    rwa [List.map_map] at same
  have references : Meets
      ((spec.orderedReferences sequence).flatMap fun reference =>
        walkInside (.reference reference.id) [])
      (sequence.references.map Node.reference) := by
    refine (Meets.leaves _ _).trans ?_
    have same := (wellFormed.map_references member).map Node.reference
    rwa [List.map_map] at same
  have setters : Meets ((spec.orderedSetters sequence).flatMap spec.walkSetter)
      ((sequence.setters.flatMap spec.subtree).map fun id => (spec.component id).node) := by
    have events : ((spec.orderedSetters sequence).flatMap spec.walkSetter).Perm
        (sequence.setters.flatMap fun id => spec.walkSetter (spec.component id)) := by
      rw [← List.flatMap_map spec.component spec.walkSetter]
      exact (spec.orderedSetters_perm sequence).flatMap_right _
    rw [List.map_flatMap]
    exact events.trans (Meets.flatMap fun id setter => wellFormed.meets_walkSetter member setter)
  have part : ∀ {category : Category} {id? : Option ComponentId},
      (∀ id ∈ id?, spec.HasRoot category (some sequence.id) id) →
      (∀ component : Component phase, component.kind.entry.category = category →
        component.node = .component component.id) →
      Meets (id?.toList.flatMap spec.walkComponent)
        ((id?.toList.flatMap spec.subtree).map fun id => (spec.component id).node) := by
    intro category id? rooted met
    rw [List.map_flatMap]
    refine .flatMap fun id present => wellFormed.meets_part ?_
    have found := rooted id (Option.mem_toList.mp present)
    rw [met _ (category_component found), wellFormed.id_of_hasRoot found]
  have estimator := part shaped.estimator fun component sort => by rw [Component.node, sort]
  have iterator := part shaped.sequenceIterator fun component sort => by rw [Component.node, sort]
  have format := part shaped.outputFormat fun component sort => by rw [Component.node, sort]
  have whole := Meets.walkInside (.sequence sequence.id)
    (((fields.append references).append setters).append
      (estimator.append (iterator.append format)))
  rw [walkSequence]
  simp only [List.flatMap_cons, List.flatMap_nil, List.append_nil]
  refine whole.trans (List.perm_iff_count.mpr fun node => ?_)
  simp only [RecordSequence.roots, List.flatMap_append, List.map_append,
    List.count_append, List.count_cons, List.count_nil]
  omega

/-- The nodes of the sequences, sorted by what they are. -/
theorem sequenceNodes_perm :
    (spec.sequences.toList.flatMap fun sequence =>
      [Node.sequence sequence.id] ++ (sequence.fields.map Node.field ++
        (sequence.references.map Node.reference ++
          (sequence.roots.flatMap spec.subtree).map fun id => (spec.component id).node))).Perm
      (spec.sequences.toList.map (fun sequence => .sequence sequence.id) ++
        (spec.fields.toList.map (fun field => .field field.id) ++
        (spec.references.toList.map (fun reference => .reference reference.id) ++
        (spec.sequences.toList.flatMap fun sequence => sequence.roots.flatMap spec.subtree).map
          fun id => (spec.component id).node))) := by
  have fields : (spec.sequences.toList.flatMap fun sequence => sequence.fields.map Node.field) =
      spec.fields.toList.map fun field => .field field.id := by
    rw [← List.map_flatMap, wellFormed.fieldsListed, List.map_map]
    rfl
  have references : (spec.sequences.toList.flatMap fun sequence =>
      sequence.references.map Node.reference) =
      spec.references.toList.map fun reference => .reference reference.id := by
    rw [← List.map_flatMap, wellFormed.referencesListed, List.map_map]
    rfl
  rw [← fields, ← references, List.map_eq_flatMap, List.map_flatMap]
  refine (List.flatMap_append_perm _ _ _).symm.trans (List.Perm.append_left _ ?_)
  refine (List.flatMap_append_perm _ _ _).symm.trans (List.Perm.append_left _ ?_)
  exact (List.flatMap_append_perm _ _ _).symm

/-- **A traversal meets the nodes of a specification.** -/
theorem meets_walk : Meets spec.walk spec.nodes := by
  have functions : Meets (spec.functions.values.flatMap fun id => walkInside (.function id) [])
      ((spec.functions.values.flatMap spec.subtree).map fun id => (spec.component id).node) := by
    rw [List.map_flatMap]
    refine .flatMap fun id member => ?_
    have rooted := wellFormed.functions id member
    refine wellFormed.meets_leaf rooted rfl ?_
    rw [Component.node, category_component rooted, wellFormed.id_of_hasRoot rooted]
  have enumSets : Meets (spec.enumSets.values.flatMap fun id => walkInside (.enumSet id) [])
      ((spec.enumSets.values.flatMap spec.subtree).map fun id => (spec.component id).node) := by
    rw [List.map_flatMap]
    refine .flatMap fun id member => ?_
    have rooted := wellFormed.enumSets id member
    refine wellFormed.meets_leaf rooted rfl ?_
    rw [Component.node, category_component rooted, wellFormed.id_of_hasRoot rooted]
  have sequences := (Meets.flatMap fun sequence member =>
    wellFormed.meets_walkSequence member).trans wellFormed.sequenceNodes_perm
  have components := wellFormed.flatMap_subtree_perm.map fun id => (spec.component id).node
  have listed : (spec.components.toList.map Component.id).map
      (fun id => (spec.component id).node) = spec.components.toList.map Component.node := by
    rw [List.map_map]
    refine List.map_congr_left fun component member => ?_
    exact congrArg Component.node (wellFormed.component_id member)
  rw [listed, roots, List.flatMap_append, List.flatMap_append, List.flatMap_assoc, List.map_append,
    List.map_append] at components
  have whole := Meets.walkInside .specification
    ((((Meets.leaves spec.parameters.values fun parameter => .parameter parameter.key).append
      functions).append enumSets).append sequences)
  refine whole.trans (List.Perm.cons _ (List.perm_iff_count.mpr fun node => ?_))
  have counted := components.count_eq node
  simp only [List.count_append] at counted ⊢
  omega

end

end WellFormed

end Specification

section Distinct

variable {spec : Specification phase}

open Linking (enteredComponent?)

/-- Parameters stand under their own keys. -/
def Specification.ParametersKeyed (spec : Specification phase) : Prop :=
  ∀ entry ∈ spec.parameters.entries, entry.2.key = entry.1

/-- A map has each key once. -/
theorem KeyMap.keys_nodup {α : Type} (map : KeyMap α) : (map.entries.map Prod.fst).Nodup := by
  refine List.Pairwise.map Prod.fst ?_ map.ascend
  intro first second below same
  rw [same] at below
  exact String.lt_irrefl _ below

/-- The node of a component tells its handle. -/
theorem Component.entered_node (component : Component phase) :
    enteredComponent? (.enter component.node) = some component.id := by
  rw [Component.node]
  split <;> rfl

private theorem nodup_nodes {α ι : Type} {values : List α} {handle : α → ι} {node : ι → Node}
    (distinct : (values.map handle).Nodup)
    (injective : ∀ first second, node first = node second → first = second) :
    (values.map fun value => node (handle value)).Nodup := by
  have nodes := distinct.map injective
  rwa [List.map_map] at nodes

namespace Specification.WellFormed

private theorem sequenceIds_nodup (wellFormed : spec.WellFormed) :
    (spec.sequences.toList.map RecordSequence.id).Nodup := by
  have numbered : spec.sequences.toList.map RecordSequence.id =
      (List.range spec.sequences.size).map SequenceId.mk := by
    refine List.ext_getElem (by simp) fun index inside _ => ?_
    rw [List.getElem_map, List.getElem_map, List.getElem_range]
    refine wellFormed.sequenceIds index _ ?_
    rw [← Array.getElem?_toList]
    exact List.getElem?_eq_getElem (by simpa using inside)
  rw [numbered]
  exact List.nodup_range.map fun _ _ same => congrArg SequenceId.index same

private theorem componentNodes_nodup (wellFormed : spec.WellFormed) :
    (spec.components.toList.map Component.node).Nodup := by
  apply List.Nodup.of_map fun node => enteredComponent? (.enter node)
  have handles := wellFormed.ids_nodup.map fun _ _ => Option.some.inj
  rw [List.map_map] at handles ⊢
  rwa [List.map_congr_left fun component _ => component.entered_node]

/-- The nodes of a specification are distinct. Those of different sorts differ, and only those of
components tell the handle of a component. -/
theorem nodes_nodup (wellFormed : spec.WellFormed) (keyed : spec.ParametersKeyed) :
    spec.nodes.Nodup := by
  have keys : spec.parameters.values.map Parameter.key = spec.parameters.entries.map Prod.fst := by
    rw [KeyMap.values, List.map_map]
    exact List.map_congr_left keyed
  have parameters := nodup_nodes (keys ▸ spec.parameters.keys_nodup) fun _ _ => Node.parameter.inj
  have sequences := nodup_nodes wellFormed.sequenceIds_nodup fun _ _ => Node.sequence.inj
  have fieldIds : (spec.fields.toList.map Field.id).Nodup := by
    rw [wellFormed.fieldIds]
    exact List.nodup_range.map fun _ _ same => congrArg FieldId.index same
  have fields := nodup_nodes fieldIds fun _ _ => Node.field.inj
  have referenceIds : (spec.references.toList.map Reference.id).Nodup := by
    rw [wellFormed.referenceIds]
    exact List.nodup_range.map fun _ _ same => congrArg ReferenceId.index same
  have references := nodup_nodes referenceIds fun _ _ => Node.reference.inj
  have others : ∀ (component : Component phase) (node : Node),
      enteredComponent? (.enter node) = none → node ≠ component.node := by
    rintro component _ silent rfl
    rw [component.entered_node] at silent
    cases silent
  refine List.nodup_cons.mpr ⟨?_, List.nodup_append.mpr ⟨List.nodup_append.mpr
    ⟨List.nodup_append.mpr ⟨List.nodup_append.mpr ⟨parameters, sequences, ?_⟩, fields, ?_⟩,
      references, ?_⟩, wellFormed.componentNodes_nodup, ?_⟩⟩
  all_goals simp only [List.mem_append, List.mem_map]
  · rintro ((((⟨_, -, same⟩ | ⟨_, -, same⟩) | ⟨_, -, same⟩) | ⟨_, -, same⟩) |
      ⟨component, -, same⟩)
    · cases same
    · cases same
    · cases same
    · cases same
    · exact others component _ rfl same.symm
  · rintro _ ⟨_, -, rfl⟩ _ ⟨_, -, rfl⟩ same
    cases same
  · rintro _ (⟨_, -, rfl⟩ | ⟨_, -, rfl⟩) _ ⟨_, -, rfl⟩ same <;> cases same
  · rintro _ ((⟨_, -, rfl⟩ | ⟨_, -, rfl⟩) | ⟨_, -, rfl⟩) _ ⟨_, -, rfl⟩ same <;> cases same
  · rintro _ (((⟨_, -, rfl⟩ | ⟨_, -, rfl⟩) | ⟨_, -, rfl⟩) | ⟨_, -, rfl⟩) _ ⟨component, -, rfl⟩ <;>
      exact others component _ rfl

/-- No component stands twice in a subtree. -/
theorem subtree_nodup (wellFormed : spec.WellFormed) (id : ComponentId) :
    (spec.subtree id).Nodup := by
  cases present : spec.components[id.index]? with
  | none =>
      rw [subtree_eq wellFormed.childrenFollow, component_of_none present]
      exact List.nodup_singleton id
  | some component =>
      have placed := wellFormed.id_of_getElem? present
      obtain ⟨root, top, inside⟩ := wellFormed.exists_root (mem_components present)
      rw [placed] at inside
      have part := subtree_induction (fun inner => (spec.subtree inner).Sublist (spec.subtree root))
        (List.Sublist.refl _) (fun holder child below held => by
          refine List.Sublist.trans ?_ below
          rw [subtree_eq wellFormed.childrenFollow holder]
          refine .cons _ (List.sublist_flatten_of_mem (List.mem_map_of_mem held))) id inside
      have all := wellFormed.flatMap_subtree_perm.nodup_iff.mpr wellFormed.ids_nodup
      exact (all.sublist (List.sublist_flatten_of_mem (List.mem_map_of_mem top))).sublist part

end Specification.WellFormed

end Distinct

/-- The node that is entered with an event. -/
def enteredNode? : WalkEvent → Option Node
  | .enter node => some node
  | .leave _ => none

namespace Specification

variable {spec : Specification phase}

private theorem enteredNodes_walkComponentTo (depth : Nat) (id : ComponentId) :
    (spec.walkComponentTo depth id).filterMap enteredNode? =
      (spec.subtreeTo depth id).map Node.component := by
  induction depth generalizing id with
  | zero => rfl
  | succ depth ih =>
      rw [walkComponentTo, filterMap_walkInside rfl, subtreeTo, List.filterMap_flatMap,
        List.map_cons, List.map_flatMap, List.flatMap_congr fun child _ => ih child]
      rfl

/-- The walk over a component contains the walks over what is nested in it. -/
theorem walkComponent_sublist (follow : spec.ChildrenFollow) {root : ComponentId} :
    ∀ id ∈ spec.subtree root, (spec.walkComponent id).Sublist (spec.walkComponent root) := by
  refine subtree_induction _ (List.Sublist.refl _) fun holder child below held => ?_
  refine List.Sublist.trans ?_ below
  rw [walkComponent_eq follow holder, walkInside]
  refine (List.Sublist.cons _ ?_).trans (List.sublist_append_left _ _)
  exact List.sublist_flatten_of_mem (List.mem_map_of_mem held)

/-- What a component holds is left before the component is. -/
theorem held_left_first (follow : spec.ChildrenFollow) {holder child : ComponentId}
    (held : child ∈ (spec.component holder).children) :
    [WalkEvent.leave (.component child), .leave (.component holder)].Sublist
      (spec.walkComponent holder) := by
  have left : WalkEvent.leave (.component child) ∈
      (spec.component holder).children.flatMap spec.walkComponent := by
    refine List.mem_flatMap.mpr ⟨child, held, ?_⟩
    rw [walkComponent_eq follow child]
    exact List.mem_append_right _ (List.mem_singleton_self _)
  rw [walkComponent_eq follow holder, walkInside]
  have inside : [WalkEvent.leave (.component child)].Sublist (.enter (.component holder) ::
      (spec.component holder).children.flatMap spec.walkComponent) :=
    .cons _ (List.singleton_sublist.mpr left)
  exact inside.append (List.Sublist.refl [WalkEvent.leave (.component holder)])

/-- Traversals meet every node of a specification once, properly nested, and components in the order
of the subtrees. -/
structure TraversedOnce (spec : Specification phase) : Prop where
  goesDeep : spec.GoesDeep
  finished : ∀ start, (spec.record none start).1 = .ok ()
  nested : ∀ start, WellNested (spec.record none start).2.events
  distinct : spec.nodes.Nodup
  once : ∀ node, (spec.record none .specification).2.events.count (.enter node) =
      (if node ∈ spec.nodes then 1 else 0) ∧
    (spec.record none .specification).2.events.count (.leave node) =
      if node ∈ spec.nodes then 1 else 0
  /-- Below a component the subtree is entered in order. -/
  entered : ∀ id, (spec.record none (.component id)).2.events.filterMap enteredNode? =
    (spec.subtree id).map Node.component
  /-- Each component of the subtree is left once. -/
  left : ∀ id inner, (spec.record none (.component id)).2.events.count (.leave (.component inner)) =
    if inner ∈ spec.subtree id then 1 else 0
  /-- It is left behind all that it holds. -/
  heldFirst : ∀ id, ∀ holder ∈ spec.subtree id, ∀ child ∈ (spec.component holder).children,
    [WalkEvent.leave (.component child), .leave (.component holder)].Sublist
      (spec.record none (.component id)).2.events

private theorem WellFormed.traversedOnce (wellFormed : spec.WellFormed)
    (keyed : spec.ParametersKeyed) :
    spec.TraversedOnce := by
  have follow := wellFormed.childrenFollow
  have distinct := wellFormed.nodes_nodup keyed
  have recorded : ∀ start, spec.record none start = (.ok (), ⟨spec.walkFrom start, []⟩) :=
    fun start => (spec.recordedWithin start 0).full
  refine ⟨follow.goesDeep, fun start => by rw [recorded], fun start => ?_, distinct, fun node => ?_,
    fun id => ?_, fun id inner => ?_, fun id holder inside child held => ?_⟩
  · rw [recorded]
    exact spec.wellNested_walkFrom start
  · obtain ⟨entered, left⟩ := wellFormed.meets_walk.count_eq node
    rw [distinct.count] at entered left
    rw [recorded]
    exact ⟨entered, left⟩
  · rw [recorded]
    exact spec.enteredNodes_walkComponentTo _ id
  · have nodes := (wellFormed.subtree_nodup id).map fun _ _ => Node.component.inj
    have left := ((spec.meets_walkComponent id).count_eq (.component inner)).2
    rw [nodes.count] at left
    rw [recorded]
    refine left.trans ?_
    simp
  · rw [recorded]
    exact (held_left_first follow held).trans (walkComponent_sublist follow holder inside)

end Specification

namespace Prototype

private theorem parametersKeyed_of_parse {text : String} {spec : Specification .raw}
    (parsed : parse text = .ok spec) : spec.ParametersKeyed := by
  obtain ⟨root, -, read⟩ := Outcome.bind_eq_ok_iff.mp parsed
  obtain ⟨entries, same, declared⟩ := (readRoot_lists read).parameters
  intro entry member
  obtain ⟨element, -, key, value, -, -, rfl⟩ :=
    exists_left_of_mem declared (same.mem_iff.mpr member)
  rfl

/-- **A traversal meets every node once, properly nested.** This holds of an accepted document and
of what it is resolved into: the traversal of the whole enters and leaves the specification and
every parameter, sequence, field, reference and component of it exactly once, and what is entered
inside a node is left inside it. The traversal of a component enters the components of its subtree
in order, and leaves each of them behind all that it holds. -/
theorem traversed_once {text : String} {spec : Specification .raw}
    (parsed : parse text = .ok spec) :
    spec.TraversedOnce ∧
      ∀ resolved, Linking.resolve spec = .ok resolved → resolved.TraversedOnce := by
  have assembled := parse_assembled parsed
  have keyed := parametersKeyed_of_parse parsed
  refine ⟨assembled.wellFormed.traversedOnce keyed, fun resolved linking => ?_⟩
  obtain ⟨⟨_, summary⟩, ran, rfl⟩ := Outcome.map_eq_ok_iff.mp linking
  refine (Linking.linked_of_run assembled ran).wellFormed.traversedOnce ?_
  rw [Specification.ParametersKeyed, (Linking.resolved_of_run assembled ran).1.parameters]
  exact keyed

/-- The traversals of the sample, in which a provider is nested three deep under its setter. -/
theorem sample_traversed :
    ∃ spec resolved, parse Sample.text = .ok spec ∧ Linking.resolve spec = .ok resolved ∧
      spec.TraversedOnce ∧ resolved.TraversedOnce := by
  obtain ⟨spec, resolved, parsed, ran⟩ := Linking.exists_run_sample
  have linking : Linking.resolve spec = .ok resolved := Outcome.map_eq_ok_iff.mpr ⟨_, ran, rfl⟩
  obtain ⟨before, after⟩ := traversed_once parsed
  exact ⟨spec, resolved, parsed, linking, before, after resolved linking⟩

end Prototype

end Recordgen
