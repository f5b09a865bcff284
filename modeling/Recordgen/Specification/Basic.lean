import Recordgen.Attributes
import Recordgen.FieldType
import Recordgen.Kind.Catalogue
import Recordgen.KeyMap
import Recordgen.Literal.Form
import Recordgen.Naming

/-! # Specifications

A specification holds parameters, functions, enumerations and record sequences. Its sequences,
fields, references and components stand in four arrays and refer to each other by handles, which are
positions in those arrays. A handle is not bounded here: where it is stored in 32 bits, what is proved
of specifications holds of those with fewer than 2^32 parts of each of the four sorts.

A specification goes through two phases. As read from a document it is `raw`: where one part refers
to another part by name, the name is kept. Once it is `resolved`, every name has become a handle.
-/

namespace Recordgen

/-- The handle of a record sequence. -/
structure SequenceId where
  index : Nat
  deriving DecidableEq, Repr, Inhabited

/-- The handle of a field. -/
structure FieldId where
  index : Nat
  deriving DecidableEq, Repr, Inhabited

/-- The handle of a reference. -/
structure ReferenceId where
  index : Nat
  deriving DecidableEq, Repr, Inhabited

/-- The handle of a component. -/
structure ComponentId where
  index : Nat
  deriving DecidableEq, Repr, Inhabited

/-- How far a specification has come. -/
inductive Phase where
  | raw
  | resolved
  deriving DecidableEq, Repr

/-- A field reached from a record through references. -/
structure FieldLink where
  /-- The path as written. -/
  path : String
  root : SequenceId
  /-- The references followed from the root. -/
  inner : List ReferenceId
  field : FieldId
  deriving DecidableEq, Repr

/-- Whether the field belongs to the root itself. -/
def FieldLink.isDirect (link : FieldLink) : Bool :=
  link.inner.isEmpty

/-- A reference of a record. -/
structure ReferenceLink where
  /-- The path as written. -/
  path : String
  record : SequenceId
  reference : ReferenceId
  deriving DecidableEq, Repr

namespace Phase

/-- What stands for the record that a reference refers to. -/
abbrev RecordTarget : Phase → Type
  | raw => String
  | resolved => SequenceId

/-- What stands for a field. -/
abbrev FieldTarget : Phase → Type
  | raw => String
  | resolved => FieldLink

/-- What stands for a reference. -/
abbrev ReferenceTarget : Phase → Type
  | raw => String
  | resolved => ReferenceLink

/-- What stands for a function. -/
abbrev FunctionTarget : Phase → Type
  | raw => String
  | resolved => ComponentId

instance : (phase : Phase) → Inhabited phase.RecordTarget
  | raw => ⟨""⟩
  | resolved => ⟨⟨0⟩⟩

end Phase

/-- A parameter of the generator, with its default. -/
structure Parameter where
  key : String
  value : String
  deriving DecidableEq, Repr

/-- The kind of a record sequence. -/
inductive SequenceKind where
  | random
  /-- Any other kind, by its element name. Nothing is generated for it, but records can refer to
  it. -/
  | unsupported (element : String)
  deriving DecidableEq, Repr

/-- A record sequence: a record type and how its records are made. -/
structure RecordSequence where
  id : SequenceId
  key : String
  kind : SequenceKind
  fields : List FieldId := []
  references : List ReferenceId := []
  outputFormat : Option ComponentId := none
  setters : List ComponentId := []
  estimator : Option ComponentId := none
  sequenceIterator : Option ComponentId := none
  deriving DecidableEq, Repr

instance : Inhabited RecordSequence :=
  ⟨{ id := ⟨0⟩, key := "", kind := .random }⟩

/-- A field of a record type. -/
structure Field where
  id : FieldId
  owner : SequenceId
  name : String
  type : FieldType
  /-- The position in the record type. -/
  order : Nat
  /-- Whether the runtime itself provides the field. -/
  implicit : Bool := false
  /-- Whether the field is computed and not stored. -/
  derived : Bool := false
  /-- The enumeration of an enumeration field. -/
  enumSet : Option String := none
  /-- The setter bound to the field. -/
  setter : Option ComponentId := none
  deriving DecidableEq, Repr

instance : Inhabited Field :=
  ⟨{ id := ⟨0⟩, owner := ⟨0⟩, name := "", type := default, order := 0 }⟩

/-- A reference of a record type to another record. -/
structure Reference (phase : Phase) where
  id : ReferenceId
  owner : SequenceId
  name : String
  /-- The position among the references of the record type. -/
  order : Nat
  target : phase.RecordTarget

instance {phase : Phase} : Inhabited (Reference phase) :=
  ⟨{ id := ⟨0⟩, owner := ⟨0⟩, name := "", order := 0, target := default }⟩

/-- What an argument of a component holds. -/
inductive Argument (phase : Phase) where
  | literal (literal : Literal)
  | fieldRef (target : phase.FieldTarget)
  | referenceRef (target : phase.ReferenceTarget)
  | functionRef (target : phase.FunctionTarget)
  | component (id : ComponentId)
  | collection (items : List (Argument phase))

namespace Argument

variable {phase : Phase}

/-- The literal that an argument holds. -/
def literal? : Argument phase → Option Literal
  | literal value => some value
  | _ => none

/-- The field that an argument refers to. -/
def fieldRef? : Argument phase → Option phase.FieldTarget
  | fieldRef target => some target
  | _ => none

/-- The reference that an argument refers to. -/
def referenceRef? : Argument phase → Option phase.ReferenceTarget
  | referenceRef target => some target
  | _ => none

/-- The function that an argument refers to. -/
def functionRef? : Argument phase → Option phase.FunctionTarget
  | functionRef target => some target
  | _ => none

/-- The component nested in an argument. -/
def component? : Argument phase → Option ComponentId
  | component id => some id
  | _ => none

/-- The components nested in an argument, those in a collection included. -/
def children : Argument phase → List ComponentId
  | component id => [id]
  | collection items => items.filterMap component?
  | _ => []

end Argument

/-- A component: a typed part of the specification with arguments. -/
structure Component (phase : Phase) where
  id : ComponentId
  /-- The key of a function, enumeration or setter, or the key of the argument that holds the
  component. -/
  key : String
  kind : Kind
  attributes : Attributes := {}
  /-- The arguments by key, in the order of the kind's schema. -/
  arguments : List (String × Argument phase) := []
  parent : Option ComponentId := none
  owner : Option SequenceId := none
  /-- The position in the setter chain, for a setter. -/
  order : Nat := 0

namespace Component

variable {phase : Phase}

instance : Inhabited (Component phase) :=
  ⟨{ id := ⟨0⟩, key := "", kind := default }⟩

/-- How messages call a component. -/
def describe (component : Component phase) : String :=
  s!"{component.kind.name} '{component.key}'"

/-- The argument with the given key. -/
def argument? (component : Component phase) (key : String) : Option (Argument phase) :=
  component.arguments.lookup key

/-- The nested components, in the order of the arguments. -/
def children (component : Component phase) : List ComponentId :=
  component.arguments.flatMap fun entry => entry.2.children

/-- A type parameter of the component's type string. -/
def literalParameter? (component : Component phase) (name : String) : Option LiteralType :=
  (component.attributes.text? name).bind LiteralType.ofName?

/-- A size in the component's type string. -/
def sizeParameter? (component : Component phase) (name : String) : Option Nat :=
  component.attributes.size? name

end Component

/-- A specification in the given phase. -/
structure Specification (phase : Phase) where
  parameters : KeyMap Parameter := {}
  functions : KeyMap ComponentId := {}
  enumSets : KeyMap ComponentId := {}
  /-- The record sequences, in document order. -/
  sequences : Array RecordSequence := #[]
  fields : Array Field := #[]
  references : Array (Reference phase) := #[]
  components : Array (Component phase) := #[]

namespace Specification

variable {phase : Phase}

/-! A handle that does not come from the specification designates a blank part. -/

/-- The sequence with the given handle. -/
def sequence (spec : Specification phase) (id : SequenceId) : RecordSequence :=
  spec.sequences.getD id.index default

/-- The field with the given handle. -/
def field (spec : Specification phase) (id : FieldId) : Field :=
  spec.fields.getD id.index default

/-- The reference with the given handle. -/
def reference (spec : Specification phase) (id : ReferenceId) : Reference phase :=
  spec.references.getD id.index default

/-- The component with the given handle. -/
def component (spec : Specification phase) (id : ComponentId) : Component phase :=
  spec.components.getD id.index default

/-- The sequence with the given key. -/
def sequenceByKey? (spec : Specification phase) (key : String) : Option RecordSequence :=
  spec.sequences.find? fun sequence => sequence.key == key

/-- The field of a sequence with the given name. -/
def findField? (spec : Specification phase) (sequence : SequenceId) (name : String) :
    Option Field :=
  ((spec.sequence sequence).fields.map spec.field).find? fun field => field.name == name

/-- The reference of a sequence with the given name. -/
def findReference? (spec : Specification phase) (sequence : SequenceId) (name : String) :
    Option (Reference phase) :=
  ((spec.sequence sequence).references.map spec.reference).find? fun reference =>
    reference.name == name

/-- The fields of a sequence by ascending order key. -/
def orderedFields (spec : Specification phase) (sequence : RecordSequence) : List Field :=
  (sequence.fields.map spec.field).mergeSort fun first second => first.order ≤ second.order

/-- The references of a sequence by ascending order key. -/
def orderedReferences (spec : Specification phase) (sequence : RecordSequence) :
    List (Reference phase) :=
  (sequence.references.map spec.reference).mergeSort fun first second =>
    first.order ≤ second.order

/-- The setters of a sequence by ascending order key. -/
def orderedSetters (spec : Specification phase) (sequence : RecordSequence) :
    List (Component phase) :=
  (sequence.setters.map spec.component).mergeSort fun first second => first.order ≤ second.order

/-- The components under `id`, parents before children, down to the given depth. -/
def subtreeTo (spec : Specification phase) : (depth : Nat) → ComponentId → List ComponentId
  | 0, id => [id]
  | depth + 1, id => id :: (spec.component id).children.flatMap (spec.subtreeTo depth)

/-- The components under `id`, parents before children. No path from a component to a nested one is
longer than the number of components. -/
def subtree (spec : Specification phase) (id : ComponentId) : List ComponentId :=
  spec.subtreeTo spec.components.size id

end Specification

/-- The name of the field that the runtime provides in every record. -/
def implicitFieldName : String :=
  "gen_id"

/-- The accessor of a field in the generated code; the runtime has its own name for the implicit
identifier. -/
def Field.accessor (field : Field) : String :=
  if field.implicit && field.name == implicitFieldName then "genID"
  else Naming.lowerCamel field.name

end Recordgen
