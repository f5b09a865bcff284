import Recordgen.Proofs.Catalogue
import Recordgen.Proofs.Forest

/-! # Conformance with the catalogue

A component conforms with the catalogue when it has exactly the arguments of its kind's schema, each
of which holds what its schema entry says, and a value for every parameter of its type string
(`Component.Conforms`). Nested components are looked up in the arena that the component stands in.
-/

namespace Recordgen

variable {phase : Phase} {arena : List (Component phase)}

/-- An argument holds one item of the given kind. The form of a literal is the one that its text
reads as, and a nested component is of the category that is asked for. -/
inductive Argument.Holds (arena : List (Component phase)) : ItemKind → Argument phase → Prop
  | literal (literal : Literal)
      (parsed : Literal.Form.parse literal.type literal.raw = .ok literal.form) :
      Holds arena .literal (.literal literal)
  | fieldRef (target : phase.FieldTarget) : Holds arena .fieldRef (.fieldRef target)
  | referenceRef (target : phase.ReferenceTarget) : Holds arena .referenceRef (.referenceRef target)
  | functionRef (target : phase.FunctionTarget) : Holds arena .functionRef (.functionRef target)
  | nested (category : NestedCategory) (id : ComponentId) (child : Component phase)
      (present : arena[id.index]? = some child)
      (admitted : child.kind.entry.category = category.category) :
      Holds arena (.nested category) (.component id)

/-- An argument holds what its schema entry says: one item, or a collection of one or more. -/
inductive Argument.Fits (arena : List (Component phase)) : ArgumentKind → Argument phase → Prop
  | single (item : ItemKind) (argument : Argument phase) (holds : argument.Holds arena item) :
      Fits arena (.single item) argument
  | collection (item : ItemKind) (items : List (Argument phase)) (filled : items ≠ [])
      (holds : ∀ argument ∈ items, argument.Holds arena item) :
      Fits arena (.collection item) (.collection items)

/-- A component is as the catalogue describes its kind. -/
structure Component.Conforms (arena : List (Component phase)) (component : Component phase) :
    Prop where
  /-- The arguments are those of the schema, in its order. -/
  keys : component.arguments.map Prod.fst = component.kind.entry.schema.map SchemaEntry.key
  fits : List.Forall₂ (fun entry argument => argument.2.Fits arena entry.kind)
    component.kind.entry.schema component.arguments
  types : ∀ name, .literal name ∈ component.kind.entry.params →
    ∃ type, component.literalParameter? name = some type
  /-- A size is positive, and every collection has that many items. -/
  sizes : ∀ name, .size name ∈ component.kind.entry.params →
    ∃ size : Nat, 0 < size ∧ component.attributes.get? name = some (.integer size) ∧
      ∀ key items, (key, .collection items) ∈ component.arguments → items.length = size

namespace Argument

variable {item : ItemKind} {argument : Argument phase} {wider : List (Component phase)}

/-- What an item holds is still there in a wider arena. -/
theorem Holds.mono (holds : argument.Holds arena item)
    (wide : ∀ (index : Nat) (component : Component phase), arena[index]? = some component →
      wider[index]? = some component) : argument.Holds wider item := by
  cases holds with
  | literal literal parsed => exact .literal literal parsed
  | fieldRef target => exact .fieldRef target
  | referenceRef target => exact .referenceRef target
  | functionRef target => exact .functionRef target
  | nested category id child present admitted =>
      exact .nested category id child (wide _ _ present) admitted

theorem Fits.mono {kind : ArgumentKind} (fits : argument.Fits arena kind)
    (wide : ∀ (index : Nat) (component : Component phase), arena[index]? = some component →
      wider[index]? = some component) : argument.Fits wider kind := by
  cases fits with
  | single item argument holds => exact .single item argument (holds.mono wide)
  | collection item items filled holds =>
      exact .collection item items filled fun argument member => (holds argument member).mono wide

/-- An item holds at most one component. -/
theorem Holds.children_eq (holds : argument.Holds arena item) :
    argument.children = argument.component?.toList := by
  cases holds <;> rfl

/-- What stands in an item is a component of the category that the item asks for. -/
theorem Holds.exists_of_mem_children (holds : argument.Holds arena item) {id : ComponentId}
    (member : id ∈ argument.children) :
    ∃ category child, item = .nested category ∧ arena[id.index]? = some child ∧
      child.kind.entry.category = category.category := by
  cases holds with
  | nested category other child present admitted =>
      obtain rfl := List.mem_singleton.mp member
      exact ⟨category, child, rfl, present, admitted⟩
  | literal | fieldRef | referenceRef | functionRef => cases member

/-- The items of a collection hold the components of the collection. -/
theorem children_collection {items : List (Argument phase)}
    (holds : ∀ argument ∈ items, argument.Holds arena item) :
    (Argument.collection items).children = items.flatMap children := by
  rw [children, List.filterMap_eq_flatMap_toList]
  exact List.flatMap_congr fun argument member => (holds argument member).children_eq.symm

/-- What is nested in an argument has the category that its kind asks for. -/
theorem Fits.exists_of_mem_children {kind : ArgumentKind} (fits : argument.Fits arena kind)
    {id : ComponentId} (member : id ∈ argument.children) :
    ∃ category child, kind.item = .nested category ∧ arena[id.index]? = some child ∧
      child.kind.entry.category = category.category := by
  cases fits with
  | single item argument holds => exact holds.exists_of_mem_children member
  | collection item items filled holds =>
      rw [children_collection holds] at member
      obtain ⟨argument, present, member⟩ := List.mem_flatMap.mp member
      exact (holds argument present).exists_of_mem_children member

end Argument

namespace Component.Conforms

variable {component : Component phase}

/-- A component conforms in every wider arena. -/
theorem mono {wider : List (Component phase)} (conforms : component.Conforms arena)
    (wide : ∀ (index : Nat) (component : Component phase), arena[index]? = some component →
      wider[index]? = some component) : component.Conforms wider :=
  ⟨conforms.keys, conforms.fits.imp fun _ _ fits => fits.mono wide, conforms.types,
    conforms.sizes⟩

/-- No key is given twice. -/
theorem keys_nodup (conforms : component.Conforms arena) :
    (component.arguments.map Prod.fst).Nodup := by
  rw [conforms.keys]
  exact component.kind.schema_keys_nodup

/-- Every argument of the schema is there and holds what the schema says. -/
theorem argument?_of_mem (conforms : component.Conforms arena) {entry : SchemaEntry}
    (member : entry ∈ component.kind.entry.schema) :
    ∃ argument, component.argument? entry.key = some argument ∧
      argument.Fits arena entry.kind := by
  obtain ⟨index, below, rfl⟩ := List.getElem_of_mem member
  obtain ⟨⟨key, argument⟩, present, fits⟩ :=
    forall₂_getElem? conforms.fits (List.getElem?_eq_getElem below)
  have sameKey : key = (component.kind.entry.schema[index]).key := by
    have both := congrArg (fun keys => keys[index]?) conforms.keys
    simpa [present, List.getElem?_eq_getElem below] using both
  refine ⟨argument, lookup_eq_some_of_mem conforms.keys_nodup ?_, fits⟩
  exact sameKey ▸ List.mem_of_getElem? present

/-- What is nested in a component is of a category that the schema asks for. -/
theorem exists_of_mem_children (conforms : component.Conforms arena) {id : ComponentId}
    (member : id ∈ component.children) :
    ∃ entry ∈ component.kind.entry.schema, ∃ category child,
      entry.kind.item = .nested category ∧ arena[id.index]? = some child ∧
        child.kind.entry.category = category.category := by
  obtain ⟨argument, present, member⟩ := List.mem_flatMap.mp member
  obtain ⟨entry, listed, fits⟩ := exists_left_of_mem conforms.fits present
  exact ⟨entry, listed, fits.exists_of_mem_children member⟩

end Component.Conforms

end Recordgen
