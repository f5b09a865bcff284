import Recordgen.Chain.Constructor
import Recordgen.Chain.Type
import Recordgen.Header.Basic

/-! # Setter chain headers

The setter chain of a record holds all setters and what is nested under them as members, and applies
the setters in order. Callbacks are functions that the leaf class has to provide.
-/

namespace Recordgen

/-- A chain member with its type and its constructor arguments. -/
structure ChainDeclaration where
  member : ChainMember
  type : MemberType
  arguments : List ConstructorArgument
  deriving DecidableEq, Repr

namespace ChainDeclaration

/-- The definition of the type name. -/
def typeStep (declaration : ChainDeclaration) : Step :=
  .line s!"typedef {declaration.type.display} {declaration.member.typeName};"

/-- The call of the constructor. -/
def initialiser (declaration : ChainDeclaration) : String :=
  let arguments := ", ".intercalate (declaration.arguments.map ConstructorArgument.display)
  s!"{declaration.member.memberName}({arguments})"

/-- The declaration of the member variable. -/
def variableStep (declaration : ChainDeclaration) : Step :=
  .line s!"{declaration.member.typeName} {declaration.member.memberName};"

end ChainDeclaration

/-- A callback of a chain. -/
structure Callback where
  name : String
  /-- The type of its result. -/
  type : String
  deriving DecidableEq, Repr

/-- The signature of a callback. -/
def Callback.signature (record : String) (callback : Callback) : String :=
  s!"virtual {callback.type} {callback.name}(const AutoPtr<{record}>& cxt) const"

namespace RecordContext

/-- The base class of the setter chain. -/
def chainBase (context : RecordContext) : String :=
  (context.artifact .setterChain).baseClass

/-- Where the types of the chain's members are formed. -/
def typeScope (context : RecordContext) (names : ChainNames) : TypeScope where
  spec := context.spec
  names := names
  record := context.record
  chainBase := context.chainBase

/-- Where the constructors of the chain's members are called. -/
def chainScope (context : RecordContext) (names : ChainNames) : ConstructorScope where
  spec := context.spec
  config := "config"
  names := some names
  chainBase := some context.chainBase

/-- The callback that a component declares, if it is a callback provider. -/
def callback? (component : Component .resolved) : Except CompileError (Option Callback) := do
  if component.kind == .callbackValueProvider then
    return some ⟨← component.callbackName "name", ← component.typeParameter "value_type"⟩
  return none

/-- Adds a callback to those declared so far, by name. One name has one type. -/
def addCallback (context : RecordContext) (types : KeyMap String) (callback : Callback) :
    Except CompileError (KeyMap String) :=
  match types.get? callback.name with
  | none => .ok (types.insert callback.name callback.type)
  | some type =>
    if type = callback.type then .ok types
    else
      .error (.rendering
        (.callbackConflict callback.name context.sequence.key type callback.type))

/-- The declaration of a chain member. -/
def chainDeclaration (context : RecordContext) (names : ChainNames) (id : ComponentId) :
    Except CompileError ChainDeclaration := do
  let component := context.spec.component id
  let arguments ← (context.chainScope names).constructorArguments component
  let type ← (context.typeScope names).memberType component
  return ⟨← names.get id, type, arguments⟩

/-- The declarations of chain members and the types of their callbacks. The members are taken one
after the other, and the first fault is the one reported. -/
def chainDeclarations (context : RecordContext) (names : ChainNames) :
    KeyMap String → List ComponentId →
      Except CompileError (List ChainDeclaration × KeyMap String)
  | types, [] => .ok ([], types)
  | types, id :: rest => do
    let types ← match ← callback? (context.spec.component id) with
      | some callback => context.addCallback types callback
      | none => pure types
    let declaration ← context.chainDeclaration names id
    let (declarations, types) ← context.chainDeclarations names types rest
    return (declaration :: declarations, types)

/-- The generated headers that a chain member needs: those of the record it refers to. -/
def memberIncludes (context : RecordContext) (id : ComponentId) : List String :=
  match ((context.spec.component id).argument? "reference").bind Argument.referenceRef? with
  | some link =>
    let target := (context.spec.reference link.reference).target
    let key := (context.spec.sequence target).key
    [(Artifact.ofRecord .util key).leafPath, (Artifact.ofRecord .generator key).leafPath]
  | none => []

/-- The constructor of the chain. -/
def chainConstructor (context : RecordContext) (declarations : List ChainDeclaration) :
    List Step :=
  let key := Text.Quoted.string context.sequence.key
  Step.constructor s!"{context.chainBase}(GeneratorConfig& config) :"
    (Step.commaLines
      (s!"_sequenceCardinality(config.cardinality({key}))" ::
        declarations.map ChainDeclaration.initialiser))

/-- Applies the setters to a record, in order. -/
def chainApplication (context : RecordContext) (setters : List ChainMember) : List Step :=
  Step.function s!"virtual void operator()(AutoPtr<{context.record}> recordPtr)"
    (setters.map fun setter => .line s!"{setter.memberName}(recordPtr);")

/-- Narrows the range of records that satisfy a predicate, field by field. -/
def chainFilter (context : RecordContext) (fieldSetters : List ChainMember) : List Step :=
  Step.function s!"virtual Interval<I64u> filter(const AutoPtr<{context.record}>& predicate)"
    (.line "Interval<I64u> result(0, _sequenceCardinality);" ::
      fieldSetters.map (fun setter =>
        .line s!"{setter.memberName}.filterRange(predicate, result);") ++
      [.line "return result;"])

/-- The definitions of the type names, and a blank line. -/
def chainTypes (declarations : List ChainDeclaration) : List Step :=
  if declarations.isEmpty then []
  else declarations.map ChainDeclaration.typeStep ++ [.blank]

/-- The declaration of a callback in the base class. -/
def callbackHook (context : RecordContext) (callback : Callback) : List Step :=
  [.blank, .line (callback.signature context.record ++ " = 0;")]

/-- The function for a callback that a leaf class starts with. -/
def callbackStub (context : RecordContext) (callback : Callback) : List Step :=
  .blank :: Step.function (callback.signature context.record)
    [.line s!"return nullValue<{callback.type}>();"]

/-- The headers of the setter chain. -/
def chainHeaders (context : RecordContext) (names : ChainNames) :
    Except CompileError HeaderPair := do
  let artifact := context.artifact .setterChain
  let className := artifact.baseClass
  let ids := names.postOrder
  let (declarations, types) ← context.chainDeclarations names {} ids
  let callbacks := types.entries.map fun (name, type) => Callback.mk name type
  let setters := context.spec.orderedSetters context.sequence
  let applied ← setters.mapM fun setter => names.get setter.id
  let filtering ← (setters.filter fun setter => setter.kind == .fieldSetter).mapM
    fun setter => names.get setter.id
  return {
    artifact := artifact
    base :=
      { path := artifact.basePath
        banner := baseBanner
        runtimeIncludes := "runtime/setter/SetterChain.h" ::
          ids.map fun id => (context.spec.component id).kind.entry.header
        localIncludes :=
          [Artifact.config.leafPath, (context.artifact .util).leafPath] ++
            ids.flatMap context.memberIncludes
        targetNamespace := context.targetNamespace
        body := .line s!"class {className} : public SetterChain<{context.record}>" ::
          Step.declarationBraces
            (Step.accessLabel "public:" ++
              chainTypes declarations ++
              context.chainConstructor declarations ++
              [.blank] ++ Step.destructor className ++
              callbacks.flatMap context.callbackHook ++
              [.blank] ++ context.chainApplication applied ++
              [.blank] ++ context.chainFilter filtering ++
              [.blank] ++ Step.accessLabel "protected:" ++
              .line "const I64u _sequenceCardinality;" ::
              declarations.map ChainDeclaration.variableStep) ++
          [.blank] }
    leaf := forwardingLeaf artifact context.targetNamespace [⟨"GeneratorConfig&", "config"⟩]
      (callbacks.flatMap context.callbackStub) }

end RecordContext

end Recordgen
