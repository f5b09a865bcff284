import Recordgen.Specification.Walk

/-! # Where names stand

A link site is a place in a raw specification where a name waits to be resolved: an argument, or one
item of an argument that is a collection. Sites are listed in the order of the walk.
-/

namespace Recordgen.Linking

/-- The position of an argument: the component, the entry of its argument list, and the item of a
collection that stands there. -/
structure Slot where
  component : ComponentId
  entry : Nat
  position : Option Nat
  deriving DecidableEq, Repr

/-- A name that waits to be resolved. -/
structure LinkSite where
  kind : LinkKind
  slot : Slot
  name : String
  /-- The sequence that owns the component. -/
  owner : Option SequenceId
  /-- How messages call the place. -/
  place : String
  deriving DecidableEq, Repr

/-- The name that an argument holds, and what it should denote. -/
def linkName? : Argument .raw → Option (LinkKind × String)
  | .fieldRef name => some (.field, name)
  | .referenceRef name => some (.reference, name)
  | .functionRef name => some (.function, name)
  | _ => none

/-- How messages call a component, with the sequence it belongs to. -/
def placeOf (spec : Specification .raw) (component : Component .raw) : String :=
  match component.owner with
  | some owner => s!"{component.describe} of record sequence '{(spec.sequence owner).key}'"
  | none => component.describe

/-- The items of an argument with their positions: the argument itself, or the members of a
collection. -/
def positions : Argument .raw → List (Option Nat × Argument .raw)
  | .collection items => items.zipIdx.map fun (item, position) => (some position, item)
  | argument => [(none, argument)]

/-- The sites of a component, in the order of its arguments. -/
def componentSites (spec : Specification .raw) (id : ComponentId) : List LinkSite :=
  let component := spec.component id
  component.arguments.zipIdx.flatMap fun (argument, entry) =>
    (positions argument.2).filterMap fun (position, item) =>
      (linkName? item).map fun (kind, name) =>
        { kind := kind
          slot := ⟨id, entry, position⟩
          name := name
          owner := component.owner
          place := placeOf spec component }

/-- The component that a walk enters with an event. -/
def enteredComponent? : WalkEvent → Option ComponentId
  | .enter (.function id) | .enter (.enumSet id) | .enter (.component id)
  | .enter (.setter id) => some id
  | _ => none

/-- The setter that a walk enters with an event. -/
def enteredSetter? : WalkEvent → Option ComponentId
  | .enter (.setter id) => some id
  | _ => none

/-- The sites of a specification, in the order of the walk. -/
def linkSites (spec : Specification .raw) : List LinkSite :=
  (spec.walk.filterMap enteredComponent?).flatMap (componentSites spec)

/-- The setters of fields, in the order of the walk. -/
def fieldSetters (spec : Specification .raw) : List ComponentId :=
  (spec.walk.filterMap enteredSetter?).filter fun id =>
    (spec.component id).kind == .fieldSetter

end Recordgen.Linking
