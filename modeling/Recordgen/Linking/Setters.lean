import Recordgen.Linking.Binding

/-! # Setters and order keys

Every field setter is attached to the field it sets; when several set one field, the last one stays.
The order keys of a sequence's fields, references and setters must number each list from zero, and
the implicit identifier must come first.
-/

namespace Recordgen.Linking

/-- The field that a field setter sets, if it may set it. -/
def setterField (spec : Specification .raw) (bindings : Bindings) (id : ComponentId) :
    Except CompileError FieldId := do
  let setter := spec.component id
  let place := setter.describe
  let some entry := setter.arguments.findIdx? fun argument => argument.1 == "field"
    | throw (.linking (.noFieldArgument place))
  let some link := bindings.fields.lookup ⟨id, entry, none⟩
    | throw (.linking (.unboundField place))
  let field := spec.field link.field
  if !link.isDirect || some field.owner ≠ setter.owner then
    throw (.setterTarget link.path place .foreignField)
  if field.implicit then
    throw (.setterTarget link.path place .implicitField)
  if field.derived then
    throw (.setterTarget link.path place .derivedField)
  return link.field

/-- Attaches a setter to a field. -/
def attachSetter (fields : Array Field) (field : FieldId) (setter : ComponentId) : Array Field :=
  fields.modify field.index fun field => { field with setter := some setter }

/-- Attaches every field setter to its field, in the order of the walk. -/
def attachSetters (spec : Specification .raw) (bindings : Bindings) (setters : List ComponentId) :
    Except CompileError (Array Field) :=
  setters.foldlM
    (fun fields setter => do
      return attachSetter fields (← setterField spec bindings setter) setter)
    spec.fields

/-- Checks that order keys number a list from zero. -/
def checkOrders (list : OrderedList) (sequence : String) (orders : List Nat) :
    Except CompileError Unit :=
  let sorted := orders.mergeSort
  if sorted = List.range sorted.length then .ok ()
  else .error (.linking (.orderKeys list sequence sorted))

/-- Whether the first field is the implicit identifier. -/
def startsWithIdentifier (fields : List Field) : Bool :=
  match fields.find? fun field => field.order == 0 with
  | some field => field.implicit && field.name == implicitFieldName
  | none => false

/-- Checks the order keys of a sequence. -/
def checkSequenceOrders (spec : Specification .raw) (sequence : RecordSequence) :
    Except CompileError Unit := do
  let fields := sequence.fields.map spec.field
  checkOrders .fields sequence.key (fields.map Field.order)
  checkOrders .references sequence.key
    ((sequence.references.map spec.reference).map Reference.order)
  checkOrders .setters sequence.key ((sequence.setters.map spec.component).map Component.order)
  unless startsWithIdentifier fields do
    throw (.linking (.firstField sequence.key implicitFieldName))

/-- Checks the order keys of all sequences. -/
def checkOrderKeys (spec : Specification .raw) : Except CompileError Unit :=
  spec.sequences.toList.forM (checkSequenceOrders spec)

end Recordgen.Linking
