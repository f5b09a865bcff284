import Recordgen.Chain.Context
import Recordgen.Chain.Names
import Recordgen.Literal.Rendering

/-! # Constructor arguments

The directives of a component's kind tell which arguments its constructor takes. Some of them are
member variables of the setter chain and have no meaning elsewhere.
-/

namespace Recordgen

/-- An argument of a constructor. -/
inductive ConstructorArgument where
  | text (text : String)
  /-- A member variable of the setter chain. -/
  | member (memberName : String)
  deriving DecidableEq, Repr

/-- The spelling of a constructor argument. -/
def ConstructorArgument.display : ConstructorArgument → String
  | text spelling => spelling
  | member memberName => memberName

/-- Where a constructor is called. -/
structure ConstructorScope where
  spec : Specification .resolved
  /-- The expression that designates the configuration. -/
  config : String
  /-- The members of the setter chain, inside of one. -/
  names : Option ChainNames := none
  /-- The base class of the setter chain, inside of one. -/
  chainBase : Option String := none

namespace ConstructorScope

/-- The look-up of a registered function. -/
def functionLookup (scope : ConstructorScope) (component : Component .resolved) (key : String) :
    Except CompileError ConstructorArgument := do
  let function := scope.spec.component (← component.functionArgument key)
  let className ← function.functionClass
  return .text s!"{scope.config}.function<{className}>(\"{function.key}\")"

/-- The inspector of the generator that the reference setter around a component refers to. -/
def inspector (scope : ConstructorScope) (component : Component .resolved) :
    Except CompileError ConstructorArgument := do
  let record := scope.spec.recordClass (← scope.spec.referenceTarget component)
  return .text s!"{scope.config}.generatorPool().get<{record}Generator>().inspector()"

/-- The member variables of the components that are nested in an argument. -/
def nestedMembers (scope : ConstructorScope) (component : Component .resolved) (key : String) :
    Except CompileError (List ConstructorArgument) := do
  let some names := scope.names
    | throw (.rendering (.nestedOutsideChain component.describe))
  let nestedMember (item : Argument .resolved) : Except CompileError ConstructorArgument := do
    match item.component? with
    | some id => return .member (← names.get id).memberName
    | none => throw (component.wrongArgument key "component")
  match ← component.argument key with
  | .collection items => items.mapM nestedMember
  | argument => return [← nestedMember argument]

/-- A pointer to the callback that an argument names. -/
def callbackPointer (scope : ConstructorScope) (component : Component .resolved) (key : String) :
    Except CompileError ConstructorArgument := do
  let some chainBase := scope.chainBase
    | throw (.rendering (.callbackOutsideChain component.describe))
  let callback ← component.callbackName key
  return .text s!"&{chainBase}::{callback}"

/-- The member variable of the setter that is bound to the field an argument refers to. -/
def setterMember (scope : ConstructorScope) (component : Component .resolved) (key : String) :
    Except CompileError ConstructorArgument := do
  let setter ← scope.spec.boundSetter component key
  match scope.names.bind fun names => names.find? setter with
  | some member => return .member member.memberName
  | none => throw (component.foreignSetter key)

/-- A function that reads the field an argument refers to, through the references of its path. -/
def fieldReader (scope : ConstructorScope) (component : Component .resolved) (key : String) :
    Except CompileError ConstructorArgument := do
  let link ← component.fieldArgument key
  let accessors := link.inner.map (fun id => Naming.lowerCamel (scope.spec.reference id).name) ++
    [(scope.spec.field link.field).accessor]
  let path := String.join (accessors.map fun accessor => s!"->{accessor}()")
  return .text
    s!"[](const AutoPtr<{scope.spec.recordClass link.root}>& cxt) \x7b return cxt{path}; \x7d"

/-- The constructor arguments that a directive makes. -/
def directiveArguments (scope : ConstructorScope) (component : Component .resolved) :
    Directive → Except CompileError (List ConstructorArgument)
  | .literal key => do
    return [.text (Literal.render scope.config (← component.literalArgument key))]
  | .verbatim text => return [.text text]
  | .environment _ => return [.text scope.config]
  | .fieldSetter key => return [← scope.setterMember component key]
  | .sequenceInspector => return [← scope.inspector component]
  | .function key => return [← scope.functionLookup component key]
  | .nested key => scope.nestedMembers component key
  | .callback key => return [← scope.callbackPointer component key]
  | .fieldAccessor key => return [← scope.fieldReader component key]

/-- The constructor arguments of a component, in the order of its directives. -/
def constructorArguments (scope : ConstructorScope) (component : Component .resolved) :
    Except CompileError (List ConstructorArgument) := do
  return (← component.kind.entry.directives.mapM (scope.directiveArguments component)).flatten

/-- The constructor arguments of a component as a call lists them. -/
def argumentTexts (scope : ConstructorScope) (component : Component .resolved) :
    Except CompileError (List String) := do
  return (← scope.constructorArguments component).map ConstructorArgument.display

end ConstructorScope

end Recordgen
