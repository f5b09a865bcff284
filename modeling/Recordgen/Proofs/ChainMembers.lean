import Recordgen.Chain.Context
import Recordgen.Chain.Names
import Recordgen.Proofs.Traversal

/-! # The members of a setter chain

The chain of a sequence consists of its setters and what is nested under them (`chain`). Naming the
members names exactly these (`postOrder_perm`). Every member is owned by the sequence, what it holds
is a member as well, and the outermost component around it is the setter that it stands under
(`outermost_eq`). Whatever selects or inspects referred records stands under a reference setter
(`kind_of_underReference`).
-/

namespace Recordgen

variable {phase : Phase}

/-- Referred records are selected under a reference setter only: each of these categories is nested in
one kind of component. -/
theorem Kind.of_nested {kind : Kind} {category : NestedCategory} {entry : SchemaEntry}
    (member : entry ∈ kind.entry.schema) (item : entry.kind.item = .nested category) :
    (category = .referenceProvider → kind = .referenceSetter) ∧
      (category = .predicateProvider → kind = .randomReferenceProvider) ∧
      (category = .binder → kind = .equalityPredicateProvider) := by
  revert entry
  cases kind <;> cases category <;> decide

namespace Specification

variable {spec : Specification phase} {root holder id : ComponentId}

/-- The chain of a sequence: its setters and what is nested under them. -/
def chain (spec : Specification phase) (sequence : RecordSequence) : List ComponentId :=
  sequence.setters.flatMap spec.subtree

private theorem mem_subtreeTo_of_held {depth : Nat} (listed : holder ∈ spec.subtreeTo depth root)
    (held : id ∈ (spec.component holder).children) : id ∈ spec.subtreeTo (depth + 1) root := by
  induction depth generalizing root with
  | zero =>
      obtain rfl := List.mem_singleton.mp listed
      exact List.mem_cons_of_mem _ (List.mem_flatMap.mpr ⟨id, held, List.mem_singleton_self _⟩)
  | succ depth ih =>
      rw [subtreeTo, List.mem_cons, List.mem_flatMap] at listed
      rcases listed with rfl | ⟨child, below, listed⟩
      · refine List.mem_cons_of_mem _ (List.mem_flatMap.mpr ⟨id, held, ?_⟩)
        rw [subtreeTo]
        exact List.mem_cons_self
      · exact List.mem_cons_of_mem _ (List.mem_flatMap.mpr ⟨child, below, ih listed⟩)

/-- What a member of a subtree holds is in the subtree. -/
theorem mem_subtree_of_held (follow : spec.ChildrenFollow) (listed : holder ∈ spec.subtree root)
    (held : id ∈ (spec.component holder).children) : id ∈ spec.subtree root := by
  have deeper := mem_subtreeTo_of_held listed held
  rwa [subtreeTo_succ follow (by omega)] at deeper

namespace WellFormed

/-- What is nested stands in the arena, and so does what holds it. -/
theorem held (wellFormed : spec.WellFormed) {holder id : ComponentId}
    (child : id ∈ (spec.component holder).children) :
    spec.component holder ∈ spec.components.toList ∧ spec.component id ∈ spec.components.toList ∧
      (spec.component holder).id = holder ∧ (spec.component id).id = id ∧
      (spec.component id).parent = some holder ∧ holder.index < id.index ∧
      (spec.component id).owner = (spec.component holder).owner ∧
      ∃ entry ∈ (spec.component holder).kind.entry.schema, ∃ category,
        entry.kind.item = .nested category ∧
          (spec.component id).kind.entry.category = category.category := by
  cases present : spec.components[holder.index]? with
  | none =>
      rw [component_of_none present] at child
      cases child
  | some component =>
      have same := component_eq present
      have placed := wellFormed.id_of_getElem? present
      have member : component ∈ spec.components.toList :=
        Array.mem_toList_iff.mpr (Array.mem_of_getElem? present)
      rw [same] at child ⊢
      obtain ⟨inner, found, sameId, parent, behind, owned⟩ := wellFormed.exists_child member child
      obtain ⟨entry, listed, category, other, item, again, sort⟩ :=
        (wellFormed.conform component member).exists_of_mem_children child
      rw [Array.getElem?_toList, found] at again
      obtain rfl := Option.some.inj again
      rw [component_eq found]
      refine ⟨member, Array.mem_toList_iff.mpr (Array.mem_of_getElem? found), placed, sameId, ?_,
        ?_, owned, entry, listed, category, item, sort⟩
      · rw [parent, placed]
      · rwa [placed] at behind

end WellFormed

/-- What holds of the root, and of whatever something holds of which it holds, holds of a whole
subtree. -/
theorem subtree_induction (holds : ComponentId → Prop) (atRoot : holds root)
    (step : ∀ holder id, holds holder → id ∈ (spec.component holder).children → holds id) :
    ∀ id ∈ spec.subtree root, holds id := by
  unfold subtree
  generalize spec.components.size = depth
  induction depth generalizing root with
  | zero =>
      intro id inside
      exact List.mem_singleton.mp inside ▸ atRoot
  | succ depth ih =>
      intro id inside
      rw [subtreeTo, List.mem_cons, List.mem_flatMap] at inside
      rcases inside with rfl | ⟨child, held, inside⟩
      · exact atRoot
      · exact ih (step root child atRoot held) id inside

namespace WellFormed

variable {sequence : RecordSequence} {id : ComponentId}

/-- A member of a chain stands in the arena and belongs to the sequence. -/
theorem chain_member (wellFormed : spec.WellFormed) (member : sequence ∈ spec.sequences.toList)
    (inside : id ∈ spec.chain sequence) :
    spec.component id ∈ spec.components.toList ∧ (spec.component id).id = id ∧
      (spec.component id).owner = some sequence.id ∧
      (spec.component id).kind.entry.category.isFlat = false := by
  obtain ⟨root, setter, inside⟩ := List.mem_flatMap.mp inside
  obtain ⟨present, placed, sort, owned⟩ := wellFormed.component_of_setter member setter
  refine subtree_induction (fun id => spec.component id ∈ spec.components.toList ∧
    (spec.component id).id = id ∧ (spec.component id).owner = some sequence.id ∧
    (spec.component id).kind.entry.category.isFlat = false)
    ⟨Array.mem_toList_iff.mpr (Array.mem_of_getElem? present), placed, owned, by rw [sort]; rfl⟩
    ?_ id inside
  rintro holder child ⟨-, -, owned, -⟩ held
  obtain ⟨-, listed, -, placed, -, -, same, _, _, category, -, sort⟩ := wellFormed.held held
  refine ⟨listed, placed, same.trans owned, ?_⟩
  rw [sort]
  cases category <;> rfl

/-- A setter is a member of its chain. -/
theorem mem_chain_of_setter (wellFormed : spec.WellFormed) (setter : id ∈ sequence.setters) :
    id ∈ spec.chain sequence := by
  refine List.mem_flatMap.mpr ⟨id, setter, ?_⟩
  rw [subtree_eq wellFormed.childrenFollow]
  exact List.mem_cons_self

/-- What a member of a chain holds is a member. -/
theorem mem_chain_of_held (wellFormed : spec.WellFormed) {holder : ComponentId}
    (inside : holder ∈ spec.chain sequence) (held : id ∈ (spec.component holder).children) :
    id ∈ spec.chain sequence := by
  obtain ⟨root, setter, inside⟩ := List.mem_flatMap.mp inside
  exact List.mem_flatMap.mpr
    ⟨root, setter, mem_subtree_of_held wellFormed.childrenFollow inside held⟩

/-- A root is nested in nothing. -/
theorem parent_of_root (wellFormed : spec.WellFormed) (root : id ∈ spec.roots) :
    (spec.component id).parent = none := by
  obtain ⟨roots, forest, same⟩ := wellFormed.forest
  obtain ⟨component, member, rfl, top⟩ := forest.exists_of_mem_roots (same.mem_iff.mpr root)
  rw [wellFormed.component_id member, top]

theorem mem_roots_of_sequence (member : sequence ∈ spec.sequences.toList)
    (root : id ∈ sequence.roots) : id ∈ spec.roots :=
  List.mem_append_right _ (List.mem_flatMap.mpr ⟨sequence, member, root⟩)

theorem mem_roots_of_setter (member : sequence ∈ spec.sequences.toList)
    (setter : id ∈ sequence.setters) : id ∈ spec.roots := by
  refine mem_roots_of_sequence member ?_
  simp [RecordSequence.roots, setter]

/-- Whether a component selects or inspects records that are referred to. -/
def underReference (component : Component phase) : Prop :=
  component.kind.entry.category = .referenceProvider ∨
    component.kind.entry.category = .predicateProvider ∨
    component.kind.entry.category = .binder

/-- Such components stand under a reference setter. -/
theorem kind_of_underReference (wellFormed : spec.WellFormed)
    (member : sequence ∈ spec.sequences.toList) {root : ComponentId}
    (setter : root ∈ sequence.setters) (inside : id ∈ spec.subtree root)
    (under : underReference (spec.component id)) :
    (spec.component root).kind = .referenceSetter := by
  obtain ⟨-, -, sort, -⟩ := wellFormed.component_of_setter member setter
  refine (subtree_induction (fun id =>
    ((spec.component id).kind.entry.category = .setter → id = root) ∧
      (underReference (spec.component id) → (spec.component root).kind = .referenceSetter))
    ⟨fun _ => rfl, ?_⟩ ?_ id inside).2 under
  · rintro (other | other | other) <;> cases sort.symm.trans other
  · rintro holder child ⟨top, below⟩ held
    obtain ⟨-, -, -, -, -, -, -, entry, listed, category, item, same⟩ := wellFormed.held held
    obtain ⟨provider, predicate, binder⟩ := Kind.of_nested listed item
    refine ⟨fun other => absurd (same.symm.trans other) category.category_ne_setter, ?_⟩
    rw [underReference, same]
    rintro (other | other | other)
    · have kind := provider (by cases category <;> first | rfl | cases other)
      rw [← top (by rw [kind]; rfl)]
      exact kind
    · have kind := predicate (by cases category <;> first | rfl | cases other)
      exact below (.inl (by rw [kind]; rfl))
    · have kind := binder (by cases category <;> first | rfl | cases other)
      exact below (.inr (.inl (by rw [kind]; rfl)))

end WellFormed

end Specification

namespace Specification

variable {spec : Specification .resolved}

theorem ancestor_of_root {component : Component .resolved} (top : component.parent = none)
    (depth : Nat) : spec.ancestor depth component = component := by
  cases depth with
  | zero => rfl
  | succ depth => rw [ancestor, top]

/-- The outermost component around a member of a chain is the setter that it stands under. -/
theorem outermost_eq (wellFormed : spec.WellFormed) {root id : ComponentId}
    (top : root ∈ spec.roots) (inside : id ∈ spec.subtree root)
    (present : spec.component id ∈ spec.components.toList) (placed : (spec.component id).id = id) :
    spec.outermost (spec.component id) = spec.component root := by
  have climbs := subtree_induction (fun id => ∀ depth, id.index ≤ depth →
    spec.ancestor depth (spec.component id) = spec.component root)
    (fun depth _ => ancestor_of_root (wellFormed.parent_of_root top) depth)
    (fun holder child climbs held depth deep => by
      obtain ⟨-, -, -, -, parent, above, -⟩ := wellFormed.held held
      obtain ⟨less, rfl⟩ : ∃ less, depth = less + 1 := ⟨depth - 1, by omega⟩
      rw [ancestor, parent]
      exact climbs less (by omega)) id inside
  refine climbs _ (Nat.le_of_lt ?_)
  have found := wellFormed.getElem?_id present
  rw [placed] at found
  exact (Array.getElem?_eq_some_iff.mp found).1

end Specification

namespace ChainNames

variable {spec : Specification .resolved} {id : ComponentId} {sequence : RecordSequence}
  {names : ChainNames}

/-- The member that is named when a walk leaves a node. -/
def leftMember? (spec : Specification .resolved) : WalkEvent → Option ComponentId
  | .leave (.setter id) => some (spec.component id).id
  | .leave (.component id) =>
    if (spec.component id).parent.isSome then some (spec.component id).id else none
  | _ => none

private theorem postOrder_visit (names : ChainNames) (event : WalkEvent) :
    (visit spec names event).postOrder = names.postOrder ++ (leftMember? spec event).toList := by
  cases event with
  | enter node => cases node <;> exact (List.append_nil _).symm
  | leave node =>
      cases node with
      | setter id => exact List.map_append
      | component id =>
          rw [visit, leftMember?]
          split
          · exact List.map_append
          · exact (List.append_nil _).symm
      | _ => exact (List.append_nil _).symm

/-- A walk adds the members that it leaves to the post-order, in that order. -/
theorem postOrder_foldl (names : ChainNames) (events : List WalkEvent) :
    (events.foldl (visit spec) names).postOrder =
      names.postOrder ++ events.filterMap (leftMember? spec) := by
  induction events generalizing names with
  | nil => exact (List.append_nil _).symm
  | cons event events ih =>
      rw [List.foldl_cons, ih, postOrder_visit, List.append_assoc]
      congr 1
      cases found : leftMember? spec event with
      | none => rw [List.filterMap_cons_none found, Option.toList_none, List.nil_append]
      | some id => rw [List.filterMap_cons_some found, Option.toList_some, List.singleton_append]

private theorem left_walkComponent (nested : ∀ inner ∈ spec.subtree id,
      (spec.component inner).parent.isSome = true ∧ (spec.component inner).id = inner) :
    ((spec.walkComponent id).filterMap (leftMember? spec)).Perm (spec.subtree id) := by
  have events : (spec.walkComponent id).Perm ((spec.subtree id).flatMap Specification.visits) :=
    Specification.walkComponent_perm id
  refine (events.filterMap _).trans (List.Perm.of_eq ?_)
  rw [List.filterMap_flatMap]
  have each : ∀ inner ∈ spec.subtree id,
      (Specification.visits inner).filterMap (leftMember? spec) = [inner] := by
    intro inner member
    obtain ⟨held, placed⟩ := nested inner member
    have entered : leftMember? spec (.enter (.component inner)) = none := rfl
    have left : leftMember? spec (.leave (.component inner)) = some inner := by
      rw [leftMember?, if_pos held, placed]
    rw [Specification.visits, List.filterMap_cons_none entered, List.filterMap_cons_some left,
      List.filterMap_nil]
  rw [List.flatMap_congr each, List.flatMap_singleton']

private theorem left_walkSetter (wellFormed : spec.WellFormed) {root : ComponentId}
    (placed : (spec.component root).id = root) :
    ((spec.walkSetter (spec.component root)).filterMap (leftMember? spec)).Perm
      (spec.subtree root) := by
  have below : ∀ child ∈ (spec.component root).children, ∀ inner ∈ spec.subtree child,
      (spec.component inner).parent.isSome = true ∧ (spec.component inner).id = inner := by
    intro child held
    refine Specification.subtree_induction (fun inner =>
      (spec.component inner).parent.isSome = true ∧ (spec.component inner).id = inner) ?_ ?_
    · obtain ⟨-, -, -, same, parent, -⟩ := wellFormed.held held
      exact ⟨by rw [parent]; rfl, same⟩
    · intro holder inner _ held
      obtain ⟨-, -, -, same, parent, -⟩ := wellFormed.held held
      exact ⟨by rw [parent]; rfl, same⟩
  rw [Specification.walkSetter, Specification.filterMap_walkInside_eq,
    Specification.subtree_eq wellFormed.childrenFollow, List.filterMap_flatMap]
  have inner := List.Perm.flatMap_left (spec.component root).children fun child held =>
    left_walkComponent (below child held)
  rw [placed]
  simp only [leftMember?, placed, Option.toList_none, Option.toList_some, List.nil_append]
  exact (inner.append_right [root]).trans List.perm_append_comm

/-- A part of a sequence that is no setter is no member of its chain. -/
theorem left_flat (wellFormed : spec.WellFormed) {category : Category} {owner : Option SequenceId}
    (root : id ∈ spec.roots) (rooted : spec.HasRoot category owner id)
    (flat : category.isFlat = true) :
    (spec.walkComponent id).filterMap (leftMember? spec) = [] := by
  have events : (spec.walkComponent id).Perm ((spec.subtree id).flatMap Specification.visits) :=
    Specification.walkComponent_perm id
  have entered : leftMember? spec (.enter (.component id)) = none := rfl
  have left : leftMember? spec (.leave (.component id)) = none := by
    rw [leftMember?, wellFormed.parent_of_root root]
    rfl
  have none : ((spec.subtree id).flatMap Specification.visits).filterMap (leftMember? spec) =
      [] := by
    rw [wellFormed.subtree_of_isFlat rooted flat, List.flatMap_singleton, Specification.visits,
      List.filterMap_cons_none entered, List.filterMap_cons_none left, List.filterMap_nil]
  exact List.Perm.eq_nil (none ▸ events.filterMap (leftMember? spec))

/-- The members are named setter by setter, in the order of the setters. -/
theorem postOrder_assign (wellFormed : spec.WellFormed)
    (member : sequence ∈ spec.sequences.toList) :
    (assign spec sequence).postOrder = (spec.orderedSetters sequence).flatMap fun setter =>
      (spec.walkSetter setter).filterMap (leftMember? spec) := by
  have shaped := wellFormed.sequences sequence member
  have flat : ∀ (id? : Option ComponentId) (category : Category), category.isFlat = true →
      (∀ id ∈ id?, id ∈ sequence.roots ∧ spec.HasRoot category (some sequence.id) id) →
      (id?.toList.flatMap spec.walkComponent).filterMap (leftMember? spec) = [] := by
    intro id? category sort rooted
    rw [List.filterMap_flatMap, List.flatMap_eq_nil_iff]
    intro id listed
    obtain ⟨root, rooted⟩ := rooted id (Option.mem_toList.mp listed)
    exact left_flat wellFormed (Specification.WellFormed.mem_roots_of_sequence member root) rooted
      sort
  have estimator := flat sequence.estimator .cardinalityEstimator rfl fun id found =>
    ⟨by simp [RecordSequence.roots, Option.mem_toList.mpr found], shaped.estimator id found⟩
  have iterator := flat sequence.sequenceIterator .sequenceIterator rfl fun id found =>
    ⟨by simp [RecordSequence.roots, Option.mem_toList.mpr found], shaped.sequenceIterator id found⟩
  have format := flat sequence.outputFormat .outputFormat rfl fun id found =>
    ⟨by simp [RecordSequence.roots, Option.mem_toList.mpr found], shaped.outputFormat id found⟩
  rw [assign, postOrder_foldl, Specification.walkSequence, Specification.filterMap_walkInside rfl,
    List.filterMap_append, List.filterMap_append, List.filterMap_append,
    Specification.filterMap_leaves (fun _ => rfl) (fun _ => rfl),
    Specification.filterMap_leaves (fun _ => rfl) (fun _ => rfl)]
  simp only [leftMember?, postOrder, List.map_nil, Option.toList_none, List.nil_append,
    List.flatMap_cons, List.flatMap_nil, List.append_nil, List.filterMap_append, estimator,
    iterator, format]
  rw [List.filterMap_flatMap]

/-- **The members that are named are those of the chain.** -/
theorem postOrder_perm (wellFormed : spec.WellFormed) (member : sequence ∈ spec.sequences.toList) :
    (assign spec sequence).postOrder.Perm (spec.chain sequence) := by
  rw [postOrder_assign wellFormed member]
  refine ((spec.orderedSetters_perm sequence).flatMap_right _).trans ?_
  rw [List.flatMap_map]
  exact List.Perm.flatMap_left _ fun root setter =>
    left_walkSetter wellFormed (wellFormed.component_of_setter member setter).2.1

/-- A look-up fails exactly for what has no place in the post-order. -/
theorem find?_eq_none_iff : names.find? id = none ↔ id ∉ names.postOrder := by
  rw [find?, List.find?_eq_none, postOrder, List.mem_map]
  constructor
  · rintro missing ⟨member, listed, rfl⟩
    exact missing member (List.mem_reverse.mpr listed) (beq_self_eq_true _)
  · rintro missing member listed same
    exact missing ⟨member, List.mem_reverse.mp listed, beq_iff_eq.mp same⟩

theorem exists_find? (listed : id ∈ names.postOrder) : ∃ member, names.find? id = some member := by
  refine Option.ne_none_iff_exists'.mp fun missing => ?_
  exact find?_eq_none_iff.mp missing listed

theorem exists_get (listed : id ∈ names.postOrder) : ∃ member, names.get id = .ok member := by
  obtain ⟨member, found⟩ := exists_find? listed
  exact ⟨member, by rw [get, found]⟩

end ChainNames

end Recordgen
