import Recordgen.Header.Basic

/-! # Traits headers

The traits of a record number its fields and references and tell how each of them is read and set.
They stand in the namespace of the runtime library.
-/

namespace Recordgen

namespace RecordMember

/-- The function that sets a member. -/
def traitsSetter (member : RecordMember) (record : String) : List Step :=
  if member.isDerived then []
  else
    .blank :: Step.function
      s!"static inline void set(AutoPtr<{record}>& record, const {member.type}& value)"
      [.line s!"record->{member.accessor}(value);"]

/-- The function that reads a member. -/
def traitsGetter (member : RecordMember) (record : String) : List Step :=
  let result := if member.isDerived then member.type else s!"const {member.type}&"
  .blank :: Step.function s!"static inline {result} get(const AutoPtr<{record}>& record)"
    [.line s!"return record->{member.accessor}();"]

/-- The traits of a member of the given record class. -/
def traits (record : String) (member : RecordMember) : List Step :=
  [.blank, .line "template<>",
    .line s!"struct RecordFieldTraits<{record}, RecordTraits<{record}>::{member.constant}>"] ++
    Step.declarationBraces
      (.line s!"typedef {member.type} FieldType;" ::
        member.traitsSetter record ++ member.traitsGetter record)

end RecordMember

namespace RecordContext

/-- A class of the target namespace as other namespaces write it. -/
def qualified (context : RecordContext) (name : String) : String :=
  s!"{context.targetNamespace}::{name}"

/-- The members as the traits see them. -/
def traitsMembers (context : RecordContext) : List RecordMember :=
  context.members context.qualified

/-- The enumeration of the members. -/
def memberEnumeration (context : RecordContext) : List Step :=
  .line "enum Field" ::
    Step.declarationBraces
      (.line "UNKNOWN," ::
        context.traitsMembers.map fun member => .line s!"{member.constant},")

/-- The traits of a record class. -/
def recordTraits (context : RecordContext) : List Step :=
  let generator := (context.artifact .generator).className
  let chain := (context.artifact .setterChain).className
  [.line "template<>", .line s!"struct RecordTraits<{context.qualified context.record}>"] ++
    Step.declarationBraces
      ([.line s!"typedef {context.qualified generator} GeneratorType;",
          .line s!"typedef {context.qualified chain} SetterChainType;", .blank] ++
        context.memberEnumeration)

/-- The headers of the traits. -/
def utilHeaders (context : RecordContext) : HeaderPair :=
  let artifact := context.artifact .util
  let generator := (context.artifact .generator).className
  let chain := (context.artifact .setterChain).className
  { artifact := artifact
    base :=
      { path := artifact.basePath
        banner := baseBanner
        runtimeIncludes := ["record/RecordTraits.h"]
        localIncludes := [(context.artifact .record).leafPath]
        targetNamespace := context.targetNamespace
        body := [.line s!"class {generator};", .line s!"class {chain};", .blank] ++
          closeNamespace context.targetNamespace ++
          openNamespace runtimeNamespace ++
          context.recordTraits ++
          context.traitsMembers.flatMap (RecordMember.traits (context.qualified context.record)) ++
          [.blank] ++
          closeNamespace runtimeNamespace ++
          openNamespace context.targetNamespace }
    leaf := leafHeader artifact context.targetNamespace [] }

end RecordContext

end Recordgen
