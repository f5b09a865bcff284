import Recordgen.Chain.Context
import Recordgen.Chain.Names

/-! # Types of chain members

The type of a chain member is its runtime class, applied to types, constants and the type names of
other members.
-/

namespace Recordgen

/-- An argument of a member's type. -/
inductive TypeArgument where
  /-- A type, a class or a number. -/
  | text (text : String)
  /-- The constant that stands for a field or reference of a record. -/
  | constant (record name : String)
  /-- The type name of a chain member. -/
  | memberType (name : String)
  deriving DecidableEq, Repr

/-- The spelling of a type argument. -/
def TypeArgument.display : TypeArgument → String
  | text spelling => spelling
  | constant record name => s!"RecordTraits<{record}>::{name}"
  | memberType name => name

/-- The type of a chain member. -/
structure MemberType where
  className : String
  arguments : List TypeArgument
  deriving DecidableEq, Repr

/-- The spelling of a member's type. -/
def MemberType.display (type : MemberType) : String :=
  type.className ++ "<" ++ ", ".intercalate (type.arguments.map TypeArgument.display) ++ ">"

/-- Where the types of chain members are formed. -/
structure TypeScope where
  spec : Specification .resolved
  names : ChainNames
  /-- The record class that the chain populates. -/
  record : String
  /-- The base class of the chain. -/
  chainBase : String

namespace TypeScope

/-- The part of an argument that `select` picks out. -/
def usable {α : Type} (component : Component .resolved) (key : String)
    (select : Argument .resolved → Option α) : Except CompileError α :=
  match (component.argument? key).bind select with
  | some value => .ok value
  | none => .error (.rendering (.unusableArgument component.describe key))

/-- The constant of the field that an argument refers to. -/
def fieldConstant (scope : TypeScope) (component : Component .resolved) (key : String) :
    Except CompileError TypeArgument := do
  let link ← usable component key Argument.fieldRef?
  let field := scope.spec.field link.field
  return .constant (scope.spec.recordClass field.owner) (Naming.constantName field.name)

/-- The constant of the reference that an argument refers to. -/
def referenceConstant (scope : TypeScope) (component : Component .resolved) (key : String) :
    Except CompileError TypeArgument := do
  let link ← usable component key Argument.referenceRef?
  return .constant scope.record (Naming.constantName (scope.spec.reference link.reference).name)

/-- The type name of the component that is nested in an argument. -/
def nestedType (scope : TypeScope) (component : Component .resolved) (key : String) :
    Except CompileError TypeArgument := do
  let member ← scope.names.get (← usable component key Argument.component?)
  return .memberType member.typeName

/-- The class of the function that an argument refers to. -/
def functionType (scope : TypeScope) (component : Component .resolved) (key : String) :
    Except CompileError TypeArgument := do
  let function ← usable component key Argument.functionRef?
  return .text (← (scope.spec.component function).functionClass)

/-- The type name of the setter that is bound to the field an argument refers to. -/
def setterType (scope : TypeScope) (component : Component .resolved) (key : String) :
    Except CompileError TypeArgument := do
  match scope.names.find? (← scope.spec.boundSetter component key) with
  | some member => return .memberType member.typeName
  | none => throw (component.foreignSetter key)

/-- The class of the record that the reference setter around a component refers to. -/
def targetRecord (scope : TypeScope) (component : Component .resolved) :
    Except CompileError TypeArgument := do
  return .text (scope.spec.recordClass (← scope.spec.referenceTarget component))

/-- The type of the values that a component deals with. -/
def valueType (component : Component .resolved) : Except CompileError TypeArgument := do
  return .text (← component.typeParameter "value_type")

/-- The arguments of a member's type. -/
def typeArguments (scope : TypeScope) (component : Component .resolved) :
    Except CompileError (List TypeArgument) := do
  let record := TypeArgument.text scope.record
  match component.kind with
  | .fieldSetter =>
    return [record, ← scope.fieldConstant component "field", ← scope.nestedType component "value"]
  | .referenceSetter =>
    return [record, ← scope.referenceConstant component "reference",
      ← scope.nestedType component "value"]
  | .callbackValueProvider =>
    return [← valueType component, record, .text scope.chainBase]
  | .clusteredValueProvider =>
    return [← valueType component, record, ← scope.functionType component "probability",
      ← scope.nestedType component "cardinality"]
  | .randomValueProvider =>
    return [← valueType component, record, ← scope.functionType component "probability"]
  | .elementWiseValueProvider =>
    let some size := component.sizeParameter? "size"
      | throw (.rendering (.noSize component.describe))
    return [← valueType component, record, .text size.repr]
  | .constValueProvider | .contextFieldValueProvider | .constRangeProvider =>
    return [← valueType component, record]
  | .contextFieldRangeProvider =>
    let setter ← scope.setterType component "field"
    return [← valueType component, record, setter]
  | .clusteredReferenceProvider | .randomReferenceProvider | .equalityPredicateProvider =>
    return [← scope.targetRecord component, record]
  | .fieldBinder =>
    let field ← scope.fieldConstant component "field"
    let value ← scope.nestedType component "value"
    return [← scope.targetRecord component, field, value]
  | kind => throw (.rendering (.notAChainKind kind.name))

/-- The type of a chain member. -/
def memberType (scope : TypeScope) (component : Component .resolved) :
    Except CompileError MemberType := do
  return ⟨component.kind.entry.className, ← scope.typeArguments component⟩

end TypeScope

end Recordgen
