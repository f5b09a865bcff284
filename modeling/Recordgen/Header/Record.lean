import Recordgen.Header.OutputFormat

/-! # Record headers

The record class stores the fields and references of a record and gives access to them. A derived
field is a function that the leaf class has to provide.
-/

namespace Recordgen

namespace RecordMember

/-- The setter and the getter of a stored member. -/
def accessorPair (member : RecordMember) : List Step :=
  Step.function s!"void {member.accessor}(const {member.type}& v)"
    [.line s!"{member.slot} = v;"] ++
  [.blank] ++
  Step.function s!"const {member.type}& {member.accessor}() const"
    [.line s!"return {member.slot};"]

/-- The access to a member. -/
def access (member : RecordMember) : List Step :=
  if member.isDerived then [.line s!"virtual {member.type} {member.accessor}() const = 0;"]
  else member.accessorPair

/-- The expression for the number of an enumeration value in its table. -/
def enumIndex (member : RecordMember) : String :=
  if member.isDerived then s!"{member.accessor}()" else member.slot

/-- The access to the text of an enumeration value. -/
def enumAccess (member : RecordMember) : List Step :=
  if member.isEnum then
    .blank :: Step.function s!"const String& {member.accessor}EnumValue() const"
      [.line s!"return _meta.{member.accessor}[{member.enumIndex}];"]
  else []

/-- What a record class declares for a member. -/
def declaration (member : RecordMember) : List Step :=
  .blank :: member.access ++ member.enumAccess

/-- The variable of a member. -/
def variableStep (member : RecordMember) : Step :=
  .line s!"{member.type} {member.slot};"

/-- The function for a derived member that a leaf class starts with. -/
def derivedStub (member : RecordMember) : List Step :=
  .blank :: Step.function s!"virtual {member.type} {member.accessor}() const"
    [.line s!"return nullValue<{member.type}>();"]

end RecordMember

namespace RecordContext

/-- The members that a record class itself declares. -/
def declaredMembers (context : RecordContext) : List RecordMember :=
  (context.members id).filter fun member => !member.isImplicit

/-- The members that a record class stores. -/
def storedMembers (context : RecordContext) : List RecordMember :=
  context.declaredMembers.filter fun member => !member.isDerived

/-- The members that the leaf class has to provide. -/
def derivedMembers (context : RecordContext) : List RecordMember :=
  (context.members id).filter fun member => member.isDerived

/-- Declares the classes of the records referred to. -/
def forwardDeclarations (context : RecordContext) : List Step :=
  match ascending (context.references.map fun reference =>
      context.spec.recordClass reference.target) with
  | [] => []
  | classes => classes.map (fun name => .line s!"class {name};") ++ [.blank]

/-- The headers of the record class. -/
def recordHeaders (context : RecordContext) : Except CompileError HeaderPair := do
  let artifact := context.artifact .record
  let className := artifact.baseClass
  let metaArtifact := context.artifact .recordMeta
  let metaClass := metaArtifact.className
  let writer ← context.writer
  return {
    artifact := artifact
    base :=
      { path := artifact.basePath
        banner := baseBanner
        runtimeIncludes := ["record/Record.h", "io/OutputCollector.h"]
        localIncludes := [metaArtifact.leafPath]
        targetNamespace := context.targetNamespace
        body := context.forwardDeclarations ++
          .line s!"class {className} : public Record" ::
          Step.declarationBraces
            (Step.accessLabel "public:" ++
              Step.constructor s!"{className}(const {metaClass}& meta) :" [.line "_meta(meta)"] ++
              [.blank] ++ Step.destructor className ++
              context.declaredMembers.flatMap RecordMember.declaration ++
              [.blank] ++ writer ++
              [.blank] ++ Step.accessLabel "protected:" ++
              .line s!"const {metaClass}& _meta;" ::
              context.storedMembers.map RecordMember.variableStep) ++
          [.blank] }
    leaf := forwardingLeaf artifact context.targetNamespace [⟨s!"const {metaClass}&", "meta"⟩]
      (context.derivedMembers.flatMap RecordMember.derivedStub) }

end RecordContext

end Recordgen
