import Recordgen.Specification.Walk
import Recordgen.Proofs.Lists
import Mathlib.Data.List.Perm.Basic

/-! # Components as a forest

A list of components is a forest when it lists trees in pre-order, numbered without gaps
(`Forest`). A forest stands somewhere in an arena (`Located`), and there handles lead back to its
components. Children come behind their parents, so going down from a component ends
(`Specification.subtree_eq`), and the subtrees of the roots list the forest
(`Forest.flatMap_subtreeTo`). A walk over a component meets what its subtree lists
(`Specification.walkComponentTo_perm`).
-/

namespace Recordgen

variable {phase : Phase}

/-- Components in pre-order, numbered from `base` on: the trees of `roots`, one after the other. The
roots have the given parent. What is nested under a component has that component as its parent and
shares its owner. -/
inductive Forest : (parent : Option ComponentId) → (base : Nat) → (roots : List ComponentId) →
    List (Component phase) → Prop
  | nil (parent : Option ComponentId) (base : Nat) : Forest parent base [] []
  | tree {parent : Option ComponentId} {base : Nat} {roots : List ComponentId}
      {inner rest : List (Component phase)} (root : Component phase)
      (numbered : root.id = ⟨base⟩) (placed : root.parent = parent)
      (owned : ∀ component ∈ inner, component.owner = root.owner)
      (nested : Forest (some ⟨base⟩) (base + 1) root.children inner)
      (others : Forest parent (base + 1 + inner.length) roots rest) :
      Forest parent base (⟨base⟩ :: roots) (root :: (inner ++ rest))

/-- Components stand in an arena from the position `base` on. -/
def Located (arena : List (Component phase)) (base : Nat) (block : List (Component phase)) : Prop :=
  ∀ (index : Nat) (component : Component phase), block[index]? = some component →
    arena[base + index]? = some component

namespace Located

variable {arena block : List (Component phase)} {base : Nat}

theorem self (arena : List (Component phase)) : Located arena 0 arena := by
  intro index component present
  rw [Nat.zero_add, present]

/-- A block stands at a place if its first component does and the rest follows. -/
theorem cons_iff {component : Component phase} :
    Located arena base (component :: block) ↔
      arena[base]? = some component ∧ Located arena (base + 1) block := by
  constructor
  · intro located
    refine ⟨located 0 component rfl, ?_⟩
    intro index other present
    have shifted := located (index + 1) other present
    rwa [show base + (index + 1) = base + 1 + index by omega] at shifted
  · rintro ⟨here, located⟩ index other present
    cases index with
    | zero => exact Option.some.inj present ▸ here
    | succ index =>
        rw [show base + (index + 1) = base + 1 + index by omega]
        exact located index other present

/-- Two blocks stand at a place one behind the other. -/
theorem append_iff {more : List (Component phase)} :
    Located arena base (block ++ more) ↔
      Located arena base block ∧ Located arena (base + block.length) more := by
  induction block generalizing base with
  | nil => simp [Located]
  | cons component block ih =>
      rw [List.cons_append, cons_iff, cons_iff, ih, List.length_cons, and_assoc]
      rw [show base + 1 + block.length = base + (block.length + 1) by omega]

/-- What is appended to an arena stands behind it. -/
theorem behind (arena block : List (Component phase)) :
    Located (arena ++ block) arena.length block := by
  intro index component present
  rw [List.getElem?_append_right (Nat.le_add_right _ _), Nat.add_sub_cancel_left, present]

/-- Every list of components stands at any position of some arena. -/
theorem exists_arena (base : Nat) (block : List (Component phase)) :
    ∃ arena, Located arena base block := by
  refine ⟨List.replicate base default ++ block, ?_⟩
  simpa using behind (List.replicate base default) block

/-- Appending to an arena moves nothing. -/
theorem extend (located : Located arena base block) (more : List (Component phase)) :
    Located (arena ++ more) base block := by
  intro index component present
  have here := located index component present
  rw [List.getElem?_append_left (List.getElem?_eq_some_iff.mp here).1, here]

end Located

namespace Forest

variable {parent : Option ComponentId} {base : Nat} {roots : List ComponentId}
  {components : List (Component phase)} {component : Component phase} {id : ComponentId}

/-- One tree. -/
theorem single {inner : List (Component phase)} (root : Component phase)
    (numbered : root.id = ⟨base⟩) (placed : root.parent = parent)
    (owned : ∀ component ∈ inner, component.owner = root.owner)
    (nested : Forest (some ⟨base⟩) (base + 1) root.children inner) :
    Forest parent base [⟨base⟩] (root :: inner) := by
  have alone := Forest.tree root numbered placed owned nested (.nil parent _)
  rwa [List.append_nil] at alone

/-- Two forests that follow each other are one. -/
theorem append {others : List ComponentId} {more : List (Component phase)}
    (first : Forest parent base roots components)
    (second : Forest parent (base + components.length) others more) :
    Forest parent base (roots ++ others) (components ++ more) := by
  induction first with
  | nil => exact second
  | @tree parent base roots inner rest root numbered placed owned nested _ _ ih =>
      rw [List.cons_append, List.cons_append, List.append_assoc]
      refine .tree root numbered placed owned nested (ih ?_)
      rwa [show base + 1 + inner.length + rest.length =
        base + (root :: (inner ++ rest)).length by simp; omega]

variable (forest : Forest parent base roots components)

include forest

/-- Handles are positions. -/
theorem id_of_getElem? :
    ∀ (index : Nat) (component : Component phase), components[index]? = some component →
      component.id = ⟨base + index⟩ := by
  induction forest with
  | nil => intro index component present; simp at present
  | @tree parent base roots inner rest root numbered _ _ _ _ nestedIds otherIds =>
      intro index component present
      cases index with
      | zero =>
          obtain rfl := Option.some.inj present
          exact numbered
      | succ index =>
          rw [List.getElem?_cons_succ] at present
          by_cases inside : index < inner.length
          · rw [List.getElem?_append_left inside] at present
            rw [nestedIds index component present, show base + 1 + index = base + (index + 1) by omega]
          · rw [List.getElem?_append_right (by omega)] at present
            rw [otherIds _ component present, show
              base + 1 + inner.length + (index - inner.length) = base + (index + 1) by omega]

private theorem base_le_of_mem (member : component ∈ components) :
    base ≤ component.id.index ∧ component.id.index < base + components.length := by
  obtain ⟨index, below, rfl⟩ := List.getElem_of_mem member
  rw [forest.id_of_getElem? index _ (List.getElem?_eq_getElem below)]
  simpa using below

/-- In the arena a component stands at its handle. -/
theorem getElem?_of_mem {arena : List (Component phase)}
    (located : Located arena base components) (member : component ∈ components) :
    arena[component.id.index]? = some component := by
  obtain ⟨index, below, rfl⟩ := List.getElem_of_mem member
  rw [forest.id_of_getElem? index _ (List.getElem?_eq_getElem below)]
  exact located index _ (List.getElem?_eq_getElem below)

/-- Each root of a forest is one of its components, right below the parent. -/
theorem exists_of_mem_roots (member : id ∈ roots) :
    ∃ component ∈ components, component.id = id ∧ component.parent = parent := by
  induction forest with
  | nil => cases member
  | tree root numbered placed _ _ _ _ ih =>
      rcases List.mem_cons.mp member with rfl | member
      · exact ⟨root, List.mem_cons_self, numbered, placed⟩
      · obtain ⟨component, present, found⟩ := ih member
        exact ⟨component, List.mem_cons_of_mem _ (List.mem_append_right _ present), found⟩

/-- A component is a root, or it is a child of a component in front of it. -/
theorem root_or_child (member : component ∈ components) :
    (component.parent = parent ∧ component.id ∈ roots) ∨
      ∃ holder ∈ components, component.parent = some holder.id ∧
        component.id ∈ holder.children ∧ holder.id.index < component.id.index ∧
        component.owner = holder.owner := by
  induction forest with
  | nil => cases member
  | @tree parent base roots inner rest root numbered placed owned nested others nestedCases
      otherCases =>
      rcases List.mem_cons.mp member with rfl | member
      · exact .inl ⟨placed, numbered ▸ List.mem_cons_self⟩
      rcases List.mem_append.mp member with inside | outside
      · right
        rcases nestedCases inside with ⟨under, child⟩ | ⟨holder, present, found⟩
        · refine ⟨root, List.mem_cons_self, numbered ▸ under, child, ?_, owned _ inside⟩
          have := (nested.base_le_of_mem inside).1
          rw [numbered]
          exact this
        · exact ⟨holder, List.mem_cons_of_mem _ (List.mem_append_left _ present), found⟩
      · rcases otherCases outside with ⟨under, child⟩ | ⟨holder, present, found⟩
        · exact .inl ⟨under, List.mem_cons_of_mem _ child⟩
        · exact .inr ⟨holder, List.mem_cons_of_mem _ (List.mem_append_right _ present), found⟩

/-- A child of a component is a component behind it that shares its owner. -/
theorem exists_child {holder : Component phase}
    (member : holder ∈ components) (child : id ∈ holder.children) :
    ∃ component ∈ components, component.id = id ∧ component.parent = some holder.id ∧
      holder.id.index < id.index ∧ component.owner = holder.owner := by
  induction forest with
  | nil => cases member
  | @tree parent base roots inner rest root numbered placed owned nested others nestedChild
      otherChild =>
      rcases List.mem_cons.mp member with rfl | member
      · obtain ⟨component, present, rfl, under⟩ := nested.exists_of_mem_roots child
        refine ⟨component, List.mem_cons_of_mem _ (List.mem_append_left _ present), rfl,
          numbered ▸ under, ?_, owned component present⟩
        rw [numbered]
        exact (nested.base_le_of_mem present).1
      rcases List.mem_append.mp member with inside | outside
      · obtain ⟨component, present, found⟩ := nestedChild inside
        exact ⟨component, List.mem_cons_of_mem _ (List.mem_append_left _ present), found⟩
      · obtain ⟨component, present, found⟩ := otherChild outside
        exact ⟨component, List.mem_cons_of_mem _ (List.mem_append_right _ present), found⟩

/-- A forest stays one when its components are exchanged for components of the same shape. -/
theorem transport {target : Phase} {images : List (Component target)}
    (alike : List.Forall₂ (fun (component : Component phase) (image : Component target) =>
      image.id = component.id ∧ image.parent = component.parent ∧
        image.owner = component.owner ∧ image.children = component.children)
      components images) : Forest parent base roots images := by
  induction forest generalizing images with
  | nil =>
      cases alike
      exact .nil _ _
  | @tree parent base roots inner rest root numbered placed owned nested others nestedIh othersIh =>
      rw [List.forall₂_cons_left_iff] at alike
      obtain ⟨image, others, ⟨sameId, sameParent, sameOwner, sameChildren⟩, alike, rfl⟩ := alike
      obtain ⟨inside, outside, rfl, alikeInside, alikeOutside⟩ := forall₂_append_left alike
      refine .tree image (sameId.trans numbered) (sameParent.trans placed) ?_ ?_ ?_
      · intro component member
        obtain ⟨original, present, _, _, kept, _⟩ := exists_left_of_mem alikeInside member
        rw [kept, sameOwner, owned original present]
      · rw [sameChildren]
        exact nestedIh alikeInside
      · rw [← alikeInside.length_eq]
        exact othersIh alikeOutside

/-- The subtrees of the roots list the forest, if they are followed deep enough. -/
theorem flatMap_subtreeTo (spec : Specification phase)
    (located : ∀ component ∈ components, spec.component component.id = component) {depth : Nat}
    (deep : components.length ≤ depth) :
    roots.flatMap (spec.subtreeTo depth) = components.map Component.id := by
  induction forest generalizing depth with
  | nil => rfl
  | @tree parent base roots inner rest root numbered _ _ _ _ nestedIh othersIh =>
      rw [List.length_cons, List.length_append] at deep
      obtain ⟨depth, rfl⟩ : ∃ less, depth = less + 1 := ⟨depth - 1, by omega⟩
      have rootAt : spec.component ⟨base⟩ = root := numbered ▸ located root List.mem_cons_self
      have below : root.children.flatMap (spec.subtreeTo depth) = inner.map Component.id :=
        nestedIh (fun component member => located component
          (List.mem_cons_of_mem _ (List.mem_append_left _ member))) (by omega)
      have beside : roots.flatMap (spec.subtreeTo (depth + 1)) = rest.map Component.id :=
        othersIh (fun component member => located component
          (List.mem_cons_of_mem _ (List.mem_append_right _ member))) (by omega)
      rw [List.flatMap_cons, beside, Specification.subtreeTo, rootAt, below, List.map_cons,
        List.map_append, numbered, List.cons_append]

end Forest

namespace Specification

variable {spec : Specification phase} {id : ComponentId}

/-- Children stand in the arena, behind the component that holds them. -/
def ChildrenFollow (spec : Specification phase) : Prop :=
  ∀ id, ∀ child ∈ (spec.component id).children,
    id.index < child.index ∧ child.index < spec.components.size

/-- The last component of the arena holds no others. -/
theorem ChildrenFollow.childless (follow : spec.ChildrenFollow)
    (last : spec.components.size ≤ id.index + 1) : (spec.component id).children = [] := by
  refine List.eq_nil_iff_forall_not_mem.mpr fun child member => ?_
  have := follow id child member
  omega

/-- Once a subtree is followed to the end of the arena, following it deeper adds nothing. -/
theorem subtreeTo_succ (follow : spec.ChildrenFollow) {depth : Nat}
    (deep : spec.components.size ≤ id.index + 1 + depth) :
    spec.subtreeTo (depth + 1) id = spec.subtreeTo depth id := by
  induction depth generalizing id with
  | zero => rw [subtreeTo, subtreeTo, follow.childless (by omega), List.flatMap_nil]
  | succ depth ih =>
      rw [subtreeTo, subtreeTo]
      congr 1
      refine List.flatMap_congr fun child member => ih ?_
      have := follow id child member
      omega

/-- A subtree is a component followed by the subtrees of its children. -/
theorem subtree_eq (follow : spec.ChildrenFollow) (id : ComponentId) :
    spec.subtree id = id :: (spec.component id).children.flatMap spec.subtree := by
  unfold subtree
  cases size : spec.components.size with
  | zero => rw [subtreeTo, follow.childless (by omega), List.flatMap_nil]
  | succ less =>
      rw [subtreeTo]
      congr 1
      refine List.flatMap_congr fun child member => (subtreeTo_succ follow ?_).symm
      omega

/-- The events of a component that is entered and left. -/
def visits (id : ComponentId) : List WalkEvent :=
  [.enter (.component id), .leave (.component id)]

theorem walkInside_perm (node : Node) (inside : List WalkEvent) :
    (walkInside node inside).Perm ([.enter node, .leave node] ++ inside) :=
  (List.perm_append_comm.cons _ : (WalkEvent.enter node :: (inside ++ [.leave node])).Perm _)

/-- A walk over a component enters and leaves what its subtree lists. -/
theorem walkComponentTo_perm (depth : Nat) (id : ComponentId) :
    (spec.walkComponentTo depth id).Perm ((spec.subtreeTo depth id).flatMap visits) := by
  induction depth generalizing id with
  | zero => exact List.Perm.refl _
  | succ depth ih =>
      rw [walkComponentTo, subtreeTo, List.flatMap_cons, List.flatMap_assoc]
      refine (walkInside_perm _ _).trans ?_
      exact (List.Perm.flatMap_left _ fun child _ => ih child).append_left _

/-- A walk enters and leaves each component of the subtree once. -/
theorem walkComponent_perm (id : ComponentId) :
    (spec.walkComponent id).Perm ((spec.subtree id).flatMap visits) :=
  walkComponentTo_perm _ id

end Specification

end Recordgen
