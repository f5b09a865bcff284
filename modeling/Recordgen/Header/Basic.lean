import Recordgen.Chain.Context
import Recordgen.Source.Header

/-! # The headers of a record sequence

Every random sequence gives rise to five classes: the meta class with its enumeration tables, the
record, its traits, the setter chain and the generator.
-/

namespace Recordgen

/-- A record sequence for which headers are rendered. -/
structure RecordContext where
  spec : Specification .resolved
  sequence : RecordSequence
  targetNamespace : String

namespace RecordContext

/-- The record class. -/
def record (context : RecordContext) : String :=
  Naming.upperCamel context.sequence.key

/-- The class of a kind for the sequence. -/
def artifact (context : RecordContext) (kind : ArtifactKind) : Artifact :=
  .ofRecord kind context.sequence.key

/-- The fields by ascending order key. -/
def fields (context : RecordContext) : List Field :=
  context.spec.orderedFields context.sequence

/-- The references by ascending order key. -/
def references (context : RecordContext) : List (Reference .resolved) :=
  context.spec.orderedReferences context.sequence

end RecordContext

/-- A field or a reference, as the record class declares it. -/
structure RecordMember where
  /-- The constant in the traits of the record. -/
  constant : String
  accessor : String
  type : String
  /-- The member variable. -/
  slot : String
  /-- Whether the runtime declares it. -/
  isImplicit : Bool := false
  /-- Whether it is computed and has neither a setter nor a variable. -/
  isDerived : Bool := false
  /-- Whether its values are numbers in a table of texts. -/
  isEnum : Bool := false
  deriving DecidableEq, Repr

namespace RecordMember

/-- The member that a field becomes. -/
def ofField (field : Field) : RecordMember where
  constant := Naming.constantName field.name
  accessor := field.accessor
  type := field.type.code
  slot := Naming.member field.name
  isImplicit := field.implicit
  isDerived := field.derived
  isEnum := field.type.isEnum

/-- The member that a reference to a record of the given class becomes. -/
def ofReference (recordClass : String) (reference : Reference .resolved) : RecordMember where
  constant := Naming.constantName reference.name
  accessor := Naming.lowerCamel reference.name
  type := s!"AutoPtr<{recordClass}>"
  slot := Naming.member reference.name

end RecordMember

/-- The members of a record class. `qualify` tells how the classes of other records are written. -/
def RecordContext.members (context : RecordContext) (qualify : String → String) :
    List RecordMember :=
  context.fields.map RecordMember.ofField ++
    context.references.map fun reference =>
      .ofReference (qualify (context.spec.recordClass reference.target)) reference

end Recordgen
