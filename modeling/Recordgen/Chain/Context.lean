import Recordgen.Specification.Basic
import Recordgen.Text.Blank

/-! # What surrounds a component

How a component is typed and what it refers to: its literal types, the class of a function, the
callback it names, the setter bound to its field, and the record that the reference setter around it
refers to.
-/

namespace Recordgen

namespace Component

/-- The argument with the given key, which the component must have. -/
def argument (component : Component .resolved) (key : String) :
    Except CompileError (Argument .resolved) :=
  match component.argument? key with
  | some argument => .ok argument
  | none => .error (.rendering (.noArgument component.describe key))

/-- The fault of an argument that does not hold what it should. -/
def wrongArgument (component : Component .resolved) (key expected : String) : CompileError :=
  .rendering (.wrongArgument key component.describe expected)

/-- The part of an argument that `select` picks out. -/
def argumentAs {α : Type} (component : Component .resolved) (key expected : String)
    (select : Argument .resolved → Option α) : Except CompileError α := do
  match select (← component.argument key) with
  | some value => return value
  | none => throw (component.wrongArgument key expected)

/-- The literal that an argument holds. -/
def literalArgument (component : Component .resolved) (key : String) :
    Except CompileError Literal :=
  component.argumentAs key "literal" Argument.literal?

/-- The field that an argument refers to. -/
def fieldArgument (component : Component .resolved) (key : String) :
    Except CompileError FieldLink :=
  component.argumentAs key "field_ref" Argument.fieldRef?

/-- The function that an argument refers to. -/
def functionArgument (component : Component .resolved) (key : String) :
    Except CompileError ComponentId :=
  component.argumentAs key "function_ref" Argument.functionRef?

/-- The name of a type parameter's type. -/
def typeParameter (component : Component .resolved) (name : String) :
    Except CompileError String :=
  match component.literalParameter? name with
  | some type => .ok type.name
  | none => .error (.rendering (.noTypeParameter component.describe name))

/-- One template argument of a function's class; a size that is not given is left out. -/
def templateArgument (function : Component .resolved) :
    TypeParameter → Except CompileError String
  | .literal name => function.typeParameter name
  | .size name => .ok (((function.sizeParameter? name).map Nat.repr).getD "")

/-- The runtime class of a function, with its template arguments. -/
def functionClass (function : Component .resolved) : Except CompileError String := do
  let entry := function.kind.entry
  let arguments ← entry.params.mapM function.templateArgument
  if arguments.isEmpty then return entry.className
  return entry.className ++ "<" ++ ", ".intercalate arguments ++ ">"

/-- Whether a text is an identifier in ASCII. -/
def isIdentifier : List Char → Bool
  | [] => false
  | c :: rest => (c.isAlpha || c = '_') && rest.all fun c => c.isAlphanum || c = '_'

/-- The name of the callback that a literal argument gives, if it is one. -/
def callbackName? (literal : Literal) : Option String :=
  match literal.form with
  | .plain value _ =>
    let name := Text.trim value
    if isIdentifier name.toList then some name else none
  | _ => none

/-- The name of the callback that an argument gives. -/
def callbackName (component : Component .resolved) (key : String) :
    Except CompileError String := do
  let literal ← component.literalArgument key
  match callbackName? literal with
  | some name => return name
  | none => throw (.rendering (.badCallbackName literal.raw component.describe))

/-- The fault of a component that needs a setter of another chain. -/
def foreignSetter (component : Component .resolved) (key : String) : CompileError :=
  let field := (((component.argument? key).bind Argument.fieldRef?).map FieldLink.path).getD key
  .setterTarget field component.describe .foreignChain

end Component

namespace Specification

/-- The setter that is bound to the field an argument refers to. -/
def boundSetter (spec : Specification .resolved) (component : Component .resolved)
    (key : String) : Except CompileError ComponentId := do
  let link ← component.fieldArgument key
  unless link.isDirect do
    throw (.setterTarget link.path component.describe .throughReference)
  match (spec.field link.field).setter with
  | some setter => return setter
  | none => throw (.setterTarget link.path component.describe .noSetter)

/-- The component at the given depth above a component, or the outermost one below it. -/
def ancestor (spec : Specification .resolved) :
    (depth : Nat) → Component .resolved → Component .resolved
  | 0, component => component
  | depth + 1, component =>
    match component.parent with
    | some parent => spec.ancestor depth (spec.component parent)
    | none => component

/-- The outermost component around a component. -/
def outermost (spec : Specification .resolved) (component : Component .resolved) :
    Component .resolved :=
  spec.ancestor spec.components.size component

/-- The sequence that the reference setter around a component refers to. -/
def referenceTarget (spec : Specification .resolved) (component : Component .resolved) :
    Except CompileError SequenceId := do
  let setter := spec.outermost component
  unless setter.kind == .referenceSetter do
    throw (.rendering (.notUnderReferenceSetter component.describe))
  match (setter.argument? "reference").bind Argument.referenceRef? with
  | some link => return (spec.reference link.reference).target
  | none => throw (setter.wrongArgument "reference" "reference_ref")

/-- The record class of a sequence. -/
def recordClass (spec : Specification .resolved) (id : SequenceId) : String :=
  Naming.upperCamel (spec.sequence id).key

end Specification

end Recordgen
