import Recordgen.Proofs.ChainMembers
import Recordgen.Proofs.ResolvedForm

/-! # The arena in pre-order

The arena of a document that is accepted is a forest in pre-order: handles are positions and lead to
parts that are there, fields and references are listed by their owners alone, and the trees of the
roots follow each other without gaps (`Prototype.parse_preOrder`). Going down from a component and
going up from one therefore end (`WalksEnd`).
-/

namespace Recordgen

variable {phase : Phase}

/-- The handle of a component stands in an argument, at any depth. -/
inductive Argument.Mentions (id : ComponentId) : Argument phase → Prop
  | component : Mentions id (.component id)
  | item (items : List (Argument phase)) (argument : Argument phase) (member : argument ∈ items)
      (mentions : Mentions id argument) : Mentions id (.collection items)

/-- Every value is listed once, by its owner, and by no other sequence. -/
def ListedOnce {α ι : Type} [BEq ι] (sequences : List RecordSequence)
    (listed : RecordSequence → List ι) (values : List α) (handle : α → ι)
    (owner : α → SequenceId) : Prop :=
  ∀ value ∈ values, ∃ sequence ∈ sequences, sequence.id = owner value ∧
    (listed sequence).count (handle value) = 1 ∧
    ∀ other ∈ sequences, handle value ∈ listed other → other = sequence

namespace Argument

variable {arena : List (Component phase)} {id : ComponentId} {argument : Argument phase}

private theorem Holds.eq_of_mentions {item : ItemKind} (holds : argument.Holds arena item)
    (mentions : argument.Mentions id) : argument = .component id := by
  cases holds <;> cases mentions
  rfl

/-- Collections are not nested, so what an argument mentions is a component that it holds. -/
theorem Fits.mem_children_of_mentions {kind : ArgumentKind} (fits : argument.Fits arena kind)
    (mentions : argument.Mentions id) : id ∈ argument.children := by
  cases fits with
  | single item argument holds =>
      rw [holds.eq_of_mentions mentions]
      exact List.mem_singleton_self _
  | collection item items filled holds =>
      cases mentions with
      | item _ argument member mentions =>
          have named := (holds argument member).eq_of_mentions mentions
          exact List.mem_filterMap.mpr ⟨argument, member, by rw [named]; rfl⟩

end Argument

namespace Specification

/-- Every handle that is stored leads to a part that is there. Before names are resolved, handles
stand for sequences, fields, references and components of the document alone. -/
structure InRange (spec : Specification .raw) : Prop where
  functions : ∀ id ∈ spec.functions.values, id.index < spec.components.size
  enumSets : ∀ id ∈ spec.enumSets.values, id.index < spec.components.size
  sequences : ∀ sequence ∈ spec.sequences.toList,
    (∀ id ∈ sequence.fields, id.index < spec.fields.size) ∧
    (∀ id ∈ sequence.references, id.index < spec.references.size) ∧
    ∀ id ∈ sequence.roots, id.index < spec.components.size
  fields : ∀ field ∈ spec.fields.toList, field.owner.index < spec.sequences.size ∧
    ∀ id ∈ field.setter, id.index < spec.components.size
  references : ∀ reference ∈ spec.references.toList, reference.owner.index < spec.sequences.size
  components : ∀ component ∈ spec.components.toList,
    (∀ id ∈ component.parent, id.index < spec.components.size) ∧
    (∀ id ∈ component.owner, id.index < spec.sequences.size) ∧
    ∀ entry ∈ component.arguments, ∀ id, entry.2.Mentions id → id.index < spec.components.size

/-- Handles are positions, and the components are trees in pre-order, one after the other. -/
structure PreOrder (spec : Specification phase) : Prop where
  sequenceIds : ∀ (index : Nat) (sequence : RecordSequence),
    spec.sequences[index]? = some sequence → sequence.id = ⟨index⟩
  fieldIds : ∀ (index : Nat) (field : Field), spec.fields[index]? = some field → field.id = ⟨index⟩
  referenceIds : ∀ (index : Nat) (reference : Reference phase),
    spec.references[index]? = some reference → reference.id = ⟨index⟩
  componentIds : ∀ (index : Nat) (component : Component phase),
    spec.components[index]? = some component → component.id = ⟨index⟩
  fieldsListed : ListedOnce spec.sequences.toList RecordSequence.fields spec.fields.toList
    Field.id Field.owner
  referencesListed : ListedOnce spec.sequences.toList RecordSequence.references
    spec.references.toList Reference.id Reference.owner
  rootsDistinct : spec.roots.Nodup
  /-- The roots are the components without a parent. -/
  root_iff : ∀ id, id ∈ spec.roots ↔
    ∃ component ∈ spec.components.toList, component.id = id ∧ component.parent = none
  /-- A component is the parent of those that it holds, and of no others. -/
  parent_iff : ∀ component ∈ spec.components.toList, ∀ holder ∈ spec.components.toList,
    component.parent = some holder.id ↔ component.id ∈ holder.children
  /-- What a component holds, it holds once. It comes behind the component and shares its owner. -/
  held : ∀ component ∈ spec.components.toList, ∀ holder ∈ spec.components.toList,
    component.parent = some holder.id → holder.children.count component.id = 1 ∧
      holder.id.index < component.id.index ∧ component.owner = holder.owner
  /-- A tree takes up consecutive positions, its root the first of them. -/
  contiguous : ∀ id ∈ spec.roots, ∃ size,
    spec.subtree id = (List.range' id.index size).map ComponentId.mk
  /-- The trees of the roots share no component and leave none out. -/
  partition : (spec.roots.flatMap spec.subtree).Perm
    ((List.range spec.components.size).map ComponentId.mk)

/-- Going down and going up in the component trees end, and neither a subtree nor a walk is cut off
at some depth. -/
structure WalksEnd (spec : Specification phase) : Prop where
  down : WellFounded fun (child holder : ComponentId) => child ∈ (spec.component holder).children
  up : WellFounded fun (holder child : ComponentId) =>
    (spec.component child).parent = some holder
  subtree_eq : ∀ id, spec.subtree id = id :: (spec.component id).children.flatMap spec.subtree
  walkComponent_eq : ∀ id, spec.walkComponent id =
    walkInside (.component id) ((spec.component id).children.flatMap spec.walkComponent)

end Specification

namespace Forest

variable {parent : Option ComponentId} {base : Nat} {roots : List ComponentId}
  {components : List (Component phase)}

/-- The components of a forest are numbered without a gap. -/
theorem map_id (forest : Forest parent base roots components) :
    components.map Component.id = (List.range' base components.length).map ComponentId.mk := by
  refine List.ext_getElem (by simp) fun index inside _ => ?_
  rw [List.getElem_map, List.getElem_map, List.getElem_range', Nat.one_mul]
  exact forest.id_of_getElem? index _ (List.getElem?_eq_getElem (by simpa using inside))

private theorem children_sublist (forest : Forest parent base roots components)
    {holder : Component phase} (member : holder ∈ components) :
    holder.children.Sublist (components.map Component.id) := by
  induction forest with
  | nil => cases member
  | tree root _ _ _ nested _ nestedIh othersIh =>
      rw [List.map_cons, List.map_append]
      refine List.Sublist.cons _ ?_
      rcases List.mem_cons.mp member with rfl | member
      · exact nested.roots_sublist.trans (List.sublist_append_left _ _)
      rcases List.mem_append.mp member with inside | outside
      · exact (nestedIh inside).trans (List.sublist_append_left _ _)
      · exact (othersIh outside).trans (List.sublist_append_right _ _)

/-- The tree of a root takes up consecutive positions. -/
theorem subtreeTo_eq_range' (spec : Specification phase)
    (forest : Forest parent base roots components)
    (located : ∀ component ∈ components, spec.component component.id = component) {depth : Nat}
    (deep : components.length ≤ depth) {id : ComponentId} (member : id ∈ roots) :
    ∃ size, spec.subtreeTo depth id = (List.range' id.index size).map ComponentId.mk := by
  induction forest with
  | nil => cases member
  | @tree parent base roots inner rest root numbered _ _ nested _ _ othersIh =>
      rw [List.length_cons, List.length_append] at deep
      rcases List.mem_cons.mp member with rfl | later
      · obtain ⟨depth, rfl⟩ : ∃ less, depth = less + 1 := ⟨depth - 1, by omega⟩
        have below : root.children.flatMap (spec.subtreeTo depth) = inner.map Component.id :=
          nested.flatMap_subtreeTo spec (fun component inside => located component
            (List.mem_cons_of_mem _ (List.mem_append_left _ inside))) (by omega)
        refine ⟨inner.length + 1, ?_⟩
        rw [Specification.subtreeTo, ← numbered, located root List.mem_cons_self, below,
          nested.map_id, numbered, List.range'_succ, List.map_cons]
      · exact othersIh (fun component inside => located component
          (List.mem_cons_of_mem _ (List.mem_append_right _ inside))) (by omega) later

end Forest

namespace Specification

variable {spec : Specification phase}

/-- Once a walk is followed to the end of the arena, following it deeper adds nothing. -/
theorem walkComponentTo_succ (follow : spec.ChildrenFollow) {depth : Nat} {id : ComponentId}
    (deep : spec.components.size ≤ id.index + 1 + depth) :
    spec.walkComponentTo (depth + 1) id = spec.walkComponentTo depth id := by
  induction depth generalizing id with
  | zero =>
      rw [walkComponentTo, walkComponentTo, follow.childless (by omega), List.flatMap_nil]
  | succ depth ih =>
      rw [walkComponentTo, walkComponentTo]
      congr 1
      refine List.flatMap_congr fun child member => ih ?_
      have := follow id child member
      omega

/-- A walk over a component is a walk over each of its children inside. -/
theorem walkComponent_eq (follow : spec.ChildrenFollow) (id : ComponentId) :
    spec.walkComponent id =
      walkInside (.component id) ((spec.component id).children.flatMap spec.walkComponent) := by
  have bounded : ∀ id, spec.walkComponent id = spec.walkComponentTo spec.components.size id :=
    fun _ => rfl
  rw [bounded id]
  cases size : spec.components.size with
  | zero => rw [walkComponentTo, follow.childless (by omega), List.flatMap_nil]
  | succ less =>
      rw [walkComponentTo]
      congr 1
      refine List.flatMap_congr fun child member => ?_
      rw [bounded child, size, walkComponentTo_succ follow (by omega)]

theorem mem_components {index : Nat} {component : Component phase}
    (present : spec.components[index]? = some component) : component ∈ spec.components.toList :=
  Array.mem_toList_iff.mpr (Array.mem_of_getElem? present)

theorem id_of_numbered {α ι : Type} {handle : α → ι} {make : Nat → ι} {values : Array α}
    (numbered : values.toList.map handle = (List.range values.size).map make) {index : Nat}
    {value : α} (present : values[index]? = some value) : handle value = make index := by
  obtain ⟨inside, rfl⟩ := Array.getElem?_eq_some_iff.mp present
  have here := congrArg (fun handles => handles[index]?) numbered
  simpa [inside] using here

private theorem getElem?_of_numbered {α ι : Type} {handle : α → ι} {make : Nat → ι}
    {values : Array α} (index : ι → Nat) (positions : ∀ position, index (make position) = position)
    (numbered : values.toList.map handle = (List.range values.size).map make) {value : α}
    (member : value ∈ values.toList) : values[index (handle value)]? = some value := by
  obtain ⟨position, found⟩ := List.getElem?_of_mem member
  rw [Array.getElem?_toList] at found
  rw [id_of_numbered numbered found, positions, found]

namespace WellFormed

section

variable (wellFormed : spec.WellFormed) {component : Component phase} {id : ComponentId}

include wellFormed

theorem index_lt_of_mem {sequence : RecordSequence}
    (member : sequence ∈ spec.sequences.toList) : sequence.id.index < spec.sequences.size := by
  obtain ⟨index, found⟩ := List.getElem?_of_mem member
  rw [Array.getElem?_toList] at found
  rw [wellFormed.sequenceIds _ _ found]
  exact (Array.getElem?_eq_some_iff.mp found).1

/-- If the sequences list all values, each what it owns, then each value is listed once. -/
theorem listedOnce {α ι : Type} [BEq ι] [LawfulBEq ι]
    {listed : RecordSequence → List ι} {values : List α} {handle : α → ι}
    {owner : α → SequenceId}
    (all : spec.sequences.toList.flatMap listed = values.map handle)
    (distinct : (values.map handle).Nodup)
    (owned : ∀ sequence ∈ spec.sequences.toList, ∀ value ∈ values,
      handle value ∈ listed sequence → owner value = sequence.id) :
    ListedOnce spec.sequences.toList listed values handle owner := by
  intro value member
  have somewhere : handle value ∈ spec.sequences.toList.flatMap listed := by
    rw [all]
    exact List.mem_map_of_mem member
  obtain ⟨sequence, present, here⟩ := List.mem_flatMap.mp somewhere
  refine ⟨sequence, present, (owned sequence present value member here).symm, ?_, ?_⟩
  · rw [← all] at distinct
    exact List.count_eq_one_of_mem ((List.nodup_flatMap.mp distinct).1 sequence present) here
  · intro other also there
    exact wellFormed.eq_of_id also present
      ((owned other also value member there).symm.trans (owned sequence present value member here))

/-- The roots are the components that are nested in nothing. -/
theorem mem_roots_iff (id : ComponentId) :
    id ∈ spec.roots ↔
      ∃ component ∈ spec.components.toList, component.id = id ∧ component.parent = none := by
  obtain ⟨roots, forest, same⟩ := wellFormed.forest
  rw [← same.mem_iff]
  constructor
  · exact forest.exists_of_mem_roots
  · rintro ⟨component, member, rfl, top⟩
    rcases forest.root_or_child member with ⟨-, root⟩ | ⟨holder, -, under, -⟩
    · exact root
    · rw [top] at under
      cases under

private theorem parent_iff {holder : Component phase} (member : component ∈ spec.components.toList)
    (holding : holder ∈ spec.components.toList) :
    component.parent = some holder.id ↔ component.id ∈ holder.children := by
  constructor
  · intro under
    obtain ⟨roots, forest, -⟩ := wellFormed.forest
    rcases forest.root_or_child member with ⟨top, -⟩ | ⟨other, present, named, child, -⟩
    · rw [under] at top
      cases top
    · have same : other.id = holder.id := Option.some.inj (named.symm.trans under)
      rw [← wellFormed.component_id present, same, wellFormed.component_id holding] at child
      exact child
  · intro child
    obtain ⟨found, present, -, under, -⟩ := wellFormed.exists_child holding child
    rw [wellFormed.getElem?_id member] at present
    exact Option.some.inj present ▸ under

/-- The parent of a component is a component in front of it. -/
theorem parent_lt {holder : ComponentId} (under : (spec.component id).parent = some holder) :
    holder.index < id.index ∧ id.index < spec.components.size := by
  cases present : spec.components[id.index]? with
  | none =>
      rw [component_of_none present] at under
      cases under
  | some component =>
      rw [component_eq present] at under
      obtain ⟨roots, forest, -⟩ := wellFormed.forest
      rcases forest.root_or_child (mem_components present) with
        ⟨top, -⟩ | ⟨other, -, named, -, above, -⟩
      · rw [under] at top
        cases top
      · obtain rfl := Option.some.inj (under.symm.trans named)
        rw [wellFormed.id_of_getElem? present] at above
        exact ⟨above, (Array.getElem?_eq_some_iff.mp present).1⟩

/-- A well-formed specification is numbered in pre-order. -/
theorem preOrder : spec.PreOrder where
  sequenceIds := wellFormed.sequenceIds
  fieldIds := fun _ _ => id_of_numbered wellFormed.fieldIds
  referenceIds := fun _ _ => id_of_numbered wellFormed.referenceIds
  componentIds := fun _ _ => wellFormed.id_of_getElem?
  fieldsListed := by
    refine wellFormed.listedOnce wellFormed.fieldsListed ?_ ?_
    · rw [wellFormed.fieldIds]
      exact List.nodup_range.map fun _ _ => FieldId.mk.inj
    · intro sequence present field member listed
      obtain ⟨fields, -, lead, -, record, -⟩ := (wellFormed.sequences sequence present).record
      obtain ⟨found, inside, here⟩ := exists_right_of_mem lead listed
      rw [getElem?_of_numbered FieldId.index (fun _ => rfl) wellFormed.fieldIds member] at here
      exact Option.some.inj here ▸ record.owners found inside
  referencesListed := by
    refine wellFormed.listedOnce wellFormed.referencesListed ?_ ?_
    · rw [wellFormed.referenceIds]
      exact List.nodup_range.map fun _ _ => ReferenceId.mk.inj
    · intro sequence present reference member listed
      obtain ⟨-, references, -, lead, -, record, -⟩ := (wellFormed.sequences sequence present).record
      obtain ⟨found, inside, here⟩ := exists_right_of_mem lead listed
      rw [getElem?_of_numbered ReferenceId.index (fun _ => rfl) wellFormed.referenceIds member]
        at here
      exact Option.some.inj here ▸ record.owners found inside
  rootsDistinct := by
    obtain ⟨roots, forest, same⟩ := wellFormed.forest
    exact same.nodup_iff.mp (wellFormed.ids_nodup.sublist forest.roots_sublist)
  root_iff := wellFormed.mem_roots_iff
  parent_iff := fun _ member _ holding => wellFormed.parent_iff member holding
  held := by
    intro component member holder holding under
    have child := (wellFormed.parent_iff member holding).mp under
    obtain ⟨roots, forest, -⟩ := wellFormed.forest
    obtain ⟨found, present, -, -, behind, owned⟩ := wellFormed.exists_child holding child
    rw [wellFormed.getElem?_id member] at present
    obtain rfl := Option.some.inj present
    exact ⟨List.count_eq_one_of_mem
      (wellFormed.ids_nodup.sublist (forest.children_sublist holding)) child, behind, owned⟩
  contiguous := by
    obtain ⟨roots, forest, same⟩ := wellFormed.forest
    intro id root
    exact forest.subtreeTo_eq_range' spec (fun component member => wellFormed.component_id member)
      (Nat.le_of_eq Array.length_toList) (same.mem_iff.mpr root)
  partition := by
    rw [← wellFormed.ids_eq]
    exact wellFormed.flatMap_subtree_perm

/-- Walks down and up a well-formed specification end. -/
theorem walksEnd : spec.WalksEnd where
  down := by
    -- Children come behind their parents, and nothing comes behind the end of the arena.
    refine Subrelation.wf ?_ (measure fun id => spec.components.size - id.index).wf
    intro child holder held
    have := wellFormed.childrenFollow holder child held
    change spec.components.size - child.index < spec.components.size - holder.index
    omega
  up := by
    refine Subrelation.wf ?_ (measure ComponentId.index).wf
    intro holder child under
    exact (wellFormed.parent_lt under).1
  subtree_eq := subtree_eq wellFormed.childrenFollow
  walkComponent_eq := walkComponent_eq wellFormed.childrenFollow

/-- Every component stands in the tree of a root. -/
theorem exists_root (member : component ∈ spec.components.toList) :
    ∃ root ∈ spec.roots, component.id ∈ spec.subtree root := by
  refine List.mem_flatMap.mp (wellFormed.flatMap_subtree_perm.mem_iff.mpr ?_)
  exact List.mem_map_of_mem member

/-- A root belongs to no sequence, or to a sequence that lists it. -/
theorem sequence_of_root {root : ComponentId}
    (top : root ∈ spec.roots) :
    (spec.component root).owner = none ∨ ∃ sequence ∈ spec.sequences.toList,
      root ∈ sequence.roots ∧ (spec.component root).owner = some sequence.id := by
  have found : ∀ {category : Category} {owner : Option SequenceId},
      spec.HasRoot category owner root → (spec.component root).owner = owner := by
    rintro category owner ⟨component, present, -, owned⟩
    rw [component_eq present, owned]
  rw [roots, List.mem_append, List.mem_append] at top
  rcases top with (function | enumSet) | part
  · exact .inl (found (wellFormed.functions root function))
  · exact .inl (found (wellFormed.enumSets root enumSet))
  · obtain ⟨sequence, present, part⟩ := List.mem_flatMap.mp part
    have shaped := wellFormed.sequences sequence present
    refine .inr ⟨sequence, present, part, ?_⟩
    simp only [RecordSequence.roots, List.mem_append, Option.mem_toList] at part
    rcases part with ((format | setter) | estimator) | iterator
    · exact found (shaped.outputFormat root format)
    · exact (wellFormed.component_of_setter present setter).2.2.2
    · exact found (shaped.estimator root estimator)
    · exact found (shaped.sequenceIterator root iterator)

/-- A component of a sequence stands under a root that the sequence lists. -/
theorem exists_root_of_owner (member : component ∈ spec.components.toList) {owner : SequenceId}
    (owned : component.owner = some owner) :
    ∃ sequence ∈ spec.sequences.toList, sequence.id = owner ∧
      ∃ root ∈ sequence.roots, component.id ∈ spec.subtree root := by
  obtain ⟨root, top, inside⟩ := wellFormed.exists_root member
  -- Nesting keeps the owner, so the root has the owner of the component.
  have shared := subtree_induction
    (fun id => (spec.component id).owner = (spec.component root).owner) rfl
    (fun holder child same held => by
      obtain ⟨-, -, -, -, -, -, shared, -⟩ := wellFormed.held held
      exact shared.trans same) component.id inside
  rw [wellFormed.component_id member, owned] at shared
  rcases wellFormed.sequence_of_root top with alone | ⟨sequence, present, listed, known⟩
  · rw [alone] at shared
    cases shared
  · rw [known] at shared
    exact ⟨sequence, present, (Option.some.inj shared).symm, root, listed, inside⟩

/-- The sequence that a component belongs to is there. -/
theorem owner_lt (member : component ∈ spec.components.toList) :
    ∀ id ∈ component.owner, id.index < spec.sequences.size := by
  intro id owned
  obtain ⟨sequence, present, rfl, -⟩ := wellFormed.exists_root_of_owner member owned
  exact wellFormed.index_lt_of_mem present

/-- A handle that an argument mentions is that of a component it holds. -/
theorem mem_children_of_mentions (member : component ∈ spec.components.toList)
    {entry : String × Argument phase} (listed : entry ∈ component.arguments)
    (mentions : entry.2.Mentions id) : id ∈ component.children := by
  refine List.mem_flatMap.mpr ⟨entry, listed, ?_⟩
  obtain ⟨schema, -, fits⟩ :=
    exists_left_of_mem (wellFormed.conform component member).fits listed
  exact fits.mem_children_of_mentions mentions

private theorem root_lt (root : id ∈ spec.roots) : id.index < spec.components.size := by
  obtain ⟨component, member, rfl, -⟩ := (wellFormed.mem_roots_iff id).mp root
  exact (Array.getElem?_eq_some_iff.mp (wellFormed.getElem?_id member)).1

theorem parent_index_lt (member : component ∈ spec.components.toList) :
    ∀ id ∈ component.parent, id.index < spec.components.size := by
  intro id under
  rw [← wellFormed.component_id member] at under
  have := wellFormed.parent_lt under
  omega

end

/-- Going up from a component ends at the root of its tree. -/
theorem outermost_root {spec : Specification .resolved} (wellFormed : spec.WellFormed)
    {component : Component .resolved} (member : component ∈ spec.components.toList) :
    (spec.outermost component).parent = none ∧
      component.id ∈ spec.subtree (spec.outermost component).id := by
  obtain ⟨root, top, inside⟩ := wellFormed.exists_root member
  have located := wellFormed.component_id member
  have found := outermost_eq wellFormed top inside (by rwa [located]) (by rw [located])
  rw [located] at found
  obtain ⟨other, present, rfl, -⟩ := (wellFormed.mem_roots_iff root).mp top
  rw [found]
  refine ⟨wellFormed.parent_of_root top, ?_⟩
  rwa [wellFormed.component_id present]

end WellFormed

end Specification

namespace Prototype

variable {spec : Specification .raw}

/-- What is read stores no handle that leads nowhere. -/
theorem Assembled.inRange (assembled : Assembled spec) : spec.InRange := by
  obtain ⟨wellFormed, unset⟩ := assembled
  have ordered := wellFormed.preOrder
  have ownerLt : ∀ {α ι : Type} [BEq ι] {listed : RecordSequence → List ι} {values : List α}
      {handle : α → ι} {owner : α → SequenceId},
      ListedOnce spec.sequences.toList listed values handle owner →
      ∀ value ∈ values, (owner value).index < spec.sequences.size := by
    intro α ι _ listed values handle owner once value member
    obtain ⟨sequence, present, same, -⟩ := once value member
    exact same ▸ wellFormed.index_lt_of_mem present
  refine ⟨?_, ?_, ?_, ?_, ownerLt ordered.referencesListed, ?_⟩
  · exact fun id listed => wellFormed.root_lt (List.mem_append_left _ (List.mem_append_left _ listed))
  · exact fun id listed => wellFormed.root_lt (List.mem_append_left _ (List.mem_append_right _ listed))
  · intro sequence present
    obtain ⟨fields, references, leadFields, leadReferences, -⟩ :=
      (wellFormed.sequences sequence present).record
    refine ⟨fun id listed => ?_, fun id listed => ?_, fun id root => ?_⟩
    · obtain ⟨field, -, found⟩ := exists_right_of_mem leadFields listed
      exact (Array.getElem?_eq_some_iff.mp found).1
    · obtain ⟨reference, -, found⟩ := exists_right_of_mem leadReferences listed
      exact (Array.getElem?_eq_some_iff.mp found).1
    · exact wellFormed.root_lt (Specification.WellFormed.mem_roots_of_sequence present root)
  · intro field member
    refine ⟨ownerLt ordered.fieldsListed field member, ?_⟩
    rw [unset field member]
    nofun
  · intro component member
    refine ⟨wellFormed.parent_index_lt member, wellFormed.owner_lt member, ?_⟩
    intro entry listed id mentions
    have child := wellFormed.mem_children_of_mentions member listed mentions
    obtain ⟨found, present, -⟩ := wellFormed.exists_child member child
    exact (Array.getElem?_eq_some_iff.mp present).1

/-- **The arena of an accepted document is a forest in pre-order.** Every handle is a position and
leads to a part that is there, every field and reference is listed once, by its owner, and the trees
of the roots are consecutive stretches of the arena, which they share out among them. So going down
from a component ends, and so does going up from one, also once the names are resolved. -/
theorem parse_preOrder {text : String} (parsed : parse text = .ok spec) :
    spec.InRange ∧ spec.PreOrder ∧ spec.WalksEnd ∧
      ∀ resolved, Linking.resolve spec = .ok resolved → resolved.PreOrder ∧ resolved.WalksEnd ∧
        ∀ component ∈ resolved.components.toList, (resolved.outermost component).parent = none ∧
          component.id ∈ resolved.subtree (resolved.outermost component).id := by
  have assembled := parse_assembled parsed
  refine ⟨assembled.inRange, assembled.wellFormed.preOrder, assembled.wellFormed.walksEnd, ?_⟩
  intro resolved linking
  obtain ⟨⟨_, summary⟩, ran, rfl⟩ := Outcome.map_eq_ok_iff.mp linking
  have wellFormed := (Linking.linked_of_run assembled ran).wellFormed
  exact ⟨wellFormed.preOrder, wellFormed.walksEnd, fun _ member => wellFormed.outermost_root member⟩

/-- The arena of the sample, in which a provider is nested three deep under its setter. -/
theorem sample_preOrder :
    ∃ spec resolved, parse Sample.text = .ok spec ∧ Linking.resolve spec = .ok resolved ∧
      spec.InRange ∧ spec.PreOrder ∧ spec.WalksEnd ∧ resolved.PreOrder ∧ resolved.WalksEnd := by
  obtain ⟨spec, resolved, parsed, ran⟩ := Linking.exists_run_sample
  have linking : Linking.resolve spec = .ok resolved := Outcome.map_eq_ok_iff.mpr ⟨_, ran, rfl⟩
  obtain ⟨inRange, ordered, ends, later⟩ := parse_preOrder parsed
  obtain ⟨again, still, -⟩ := later resolved linking
  exact ⟨spec, resolved, parsed, linking, inRange, ordered, ends, again, still⟩

end Prototype

end Recordgen
