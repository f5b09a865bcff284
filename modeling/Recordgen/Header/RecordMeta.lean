import Recordgen.Header.Basic
import Recordgen.Text.Quoted

/-! # Meta headers

The meta class of a record holds a table of texts for every enumeration field.
-/

namespace Recordgen

/-- The table of an enumeration field. -/
structure EnumTable where
  /-- The member that refers to the table. -/
  name : String
  /-- The key of the enumeration. -/
  enumSet : String
  deriving DecidableEq, Repr

namespace RecordContext

/-- The table of a field; only enumeration fields have one. -/
def enumTable? (context : RecordContext) (field : Field) :
    Except CompileError (Option EnumTable) :=
  if !field.type.isEnum then .ok none
  else
    match field.enumSet with
    | some enumSet => .ok (some ⟨Naming.lowerCamel field.name, enumSet⟩)
    | none => .error (.rendering (.noEnumSet field.name context.sequence.key))

/-- The tables of a record's enumeration fields, in the order of the fields. -/
def enumTables (context : RecordContext) : Except CompileError (List EnumTable) := do
  return (← context.fields.mapM context.enumTable?).filterMap id

/-- The constructor of a meta class. -/
def metaConstructor (className : String) (tables : List EnumTable) : List Step :=
  if tables.isEmpty then Step.function s!"{className}(const EnumSetPool&)" []
  else
    Step.constructor s!"{className}(const EnumSetPool& enumSets) :"
      (Step.commaLines (tables.map fun table =>
        s!"{table.name}(enumSets.get({Text.Quoted.string table.enumSet}).values())"))

/-- The members of a meta class. -/
def metaMembers (tables : List EnumTable) : List Step :=
  if tables.isEmpty then []
  else .blank :: tables.map fun table => .line s!"const vector<String>& {table.name};"

/-- The headers of the meta class. -/
def metaHeaders (context : RecordContext) : Except CompileError HeaderPair := do
  let artifact := context.artifact .recordMeta
  let className := artifact.baseClass
  let tables ← context.enumTables
  return {
    artifact := artifact
    base :=
      { path := artifact.basePath
        banner := baseBanner
        runtimeIncludes := ["config/EnumSet.h"]
        targetNamespace := context.targetNamespace
        body := .line s!"class {className}" ::
          Step.declarationBraces
            (Step.accessLabel "public:" ++ metaConstructor className tables ++
              metaMembers tables) ++
          [.blank] }
    leaf := forwardingLeaf artifact context.targetNamespace
      [⟨"const EnumSetPool&", "enumSets"⟩] [] }

end RecordContext

end Recordgen
