import Recordgen.Linking.Setters

/-! # Resolution

`resolve` turns a raw specification into a resolved one: it binds all names, attaches the setters,
checks the order keys and puts every link in the place of its name. Nothing else changes.
-/

namespace Recordgen.Linking

/-- How many links of each kind were bound. -/
structure Summary where
  recordReferences : Nat
  fieldRefs : Nat
  referenceRefs : Nat
  functionRefs : Nat
  setterLinks : Nat
  deriving DecidableEq, Repr

/-- How many links were bound. -/
def Summary.total (summary : Summary) : Nat :=
  summary.recordReferences + summary.fieldRefs + summary.referenceRefs + summary.functionRefs +
    summary.setterLinks

/-- The link bound to a slot. -/
def boundLink {α : Type} (bindings : List (Slot × α)) (slot : Slot) (kind : LinkKind)
    (name place : String) : Except CompileError α :=
  match bindings.lookup slot with
  | some link => .ok link
  | none => .error (.unresolved kind name name place)

/-- Puts the link of a slot in the place of its name. -/
def resolveItem (bindings : Bindings) (place : String) (slot : Slot) :
    Argument .raw → Except CompileError (Argument .resolved)
  | .literal literal => .ok (.literal literal)
  | .component id => .ok (.component id)
  | .fieldRef name => .fieldRef <$> boundLink bindings.fields slot .field name place
  | .referenceRef name =>
    .referenceRef <$> boundLink bindings.references slot .reference name place
  | .functionRef name => .functionRef <$> boundLink bindings.functions slot .function name place
  | .collection _ => .error (.linking (.nestedCollection place))

/-- Puts the links of an argument in the place of its names. -/
def resolveArgument (bindings : Bindings) (place : String) (id : ComponentId) (entry : Nat) :
    Argument .raw → Except CompileError (Argument .resolved)
  | .collection items =>
    .collection <$> items.zipIdx.mapM fun (item, position) =>
      resolveItem bindings place ⟨id, entry, some position⟩ item
  | argument => resolveItem bindings place ⟨id, entry, none⟩ argument

/-- Puts the links of a component in the place of its names. -/
def resolveComponent (bindings : Bindings) (component : Component .raw) :
    Except CompileError (Component .resolved) := do
  let arguments ← component.arguments.zipIdx.mapM fun (argument, entry) => do
    return (argument.1,
      ← resolveArgument bindings component.describe component.id entry argument.2)
  return { component with arguments := arguments }

/-- A reference with the sequence it refers to. -/
def resolveReference (reference : Reference .raw) (target : SequenceId) : Reference .resolved :=
  { reference with target := target }

/-- Resolves a specification and counts the links. -/
def run (spec : Specification .raw) :
    Except CompileError (Specification .resolved × Summary) := do
  let bindings ← bindAll spec
  let setters := fieldSetters spec
  let fields ← attachSetters spec bindings setters
  checkOrderKeys spec
  let components ← spec.components.toList.mapM (resolveComponent bindings)
  let references := spec.references.toList.zipWith resolveReference bindings.targets
  return (
    { parameters := spec.parameters
      functions := spec.functions
      enumSets := spec.enumSets
      sequences := spec.sequences
      fields := fields
      references := references.toArray
      components := components.toArray },
    { recordReferences := bindings.targets.length
      fieldRefs := bindings.fields.length
      referenceRefs := bindings.references.length
      functionRefs := bindings.functions.length
      setterLinks := setters.length })

/-- Resolves a specification. -/
def resolve (spec : Specification .raw) : Except CompileError (Specification .resolved) :=
  Prod.fst <$> run spec

end Recordgen.Linking
