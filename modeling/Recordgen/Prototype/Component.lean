import Recordgen.Kind.Dispatch
import Recordgen.Markup.Element
import Recordgen.Specification.Basic

/-! # Reading components

A component element names its kind by a type string and holds one `argument` element for each
argument, or several for a collection. Arguments are read in the order of the kind's schema, not of
the document. Reading an element gives the components of its whole subtree, the element's own first,
numbered from a given position on: a component comes before those nested in it.
-/

namespace Recordgen.Prototype

open Markup (Element)

/-- Where a component stands. -/
structure Placement where
  parent : Option ComponentId := none
  owner : Option SequenceId := none
  order : Nat := 0

/-- Reads a component of the given category, type string and key; the components read are numbered
from `base` on. -/
abbrev ComponentReader : Type :=
  (category : Category) → (typeText key : String) → Placement → (base : Nat) →
    Except CompileError (List (Component .raw))

/-- An argument together with the components nested in it. -/
structure ArgumentRead where
  argument : Argument .raw
  nested : List (Component .raw) := []

/-- An element that may hold an argument, with the reader of the component that it may describe. -/
structure Candidate where
  element : Element
  read : ComponentReader

/-- The component whose arguments are read, as far as it matters to them. -/
structure Surroundings where
  /-- How messages call the component. -/
  place : String
  component : ComponentId
  owner : Option SequenceId

/-- Reads a literal; a fault is reported with the argument it was found in. -/
def readLiteral (type : LiteralType) (raw key place : String) : Except CompileError Literal :=
  (Literal.read type raw).mapError fun fault => .document (.badLiteral key place fault)

/-- Reads the literal that an element holds. -/
def literalOf (element : Element) (key place : String) : Except CompileError Literal := do
  let type ← LiteralType.parse (← element.required "type" place)
  match element.attribute? "value" with
  | some raw => readLiteral type raw key place
  | none => throw (.document (.literalWithoutValue key place))

/-- Reads one item of an argument. -/
def readItem (around : Surroundings) (key : String) (item : ItemKind) (base : Nat)
    (candidate : Candidate) : Except CompileError ArgumentRead := do
  let element := candidate.element
  match item with
  | .literal => return ⟨.literal (← literalOf element key around.place), []⟩
  | .fieldRef => return ⟨.fieldRef (← element.required "ref" around.place), []⟩
  | .referenceRef => return ⟨.referenceRef (← element.required "ref" around.place), []⟩
  | .functionRef => return ⟨.functionRef (← element.required "ref" around.place), []⟩
  | .nested category =>
    let typeText ← element.required "type" around.place
    let nested ← candidate.read category.category typeText key
      { parent := some around.component, owner := around.owner } base
    return ⟨.component ⟨base⟩, nested⟩

/-- Reads the items of a collection, in document order. -/
def readItems (around : Surroundings) (key : String) (item : ItemKind) :
    (base : Nat) → List Candidate →
      Except CompileError (List (Argument .raw) × List (Component .raw))
  | _, [] => return ([], [])
  | base, candidate :: rest => do
    let first ← readItem around key item base candidate
    let (items, nested) ← readItems around key item (base + first.nested.length) rest
    return (first.argument :: items, first.nested ++ nested)

/-- Whether an element is given for the argument with the given key. -/
def Candidate.hasKey (candidate : Candidate) (key : String) : Bool :=
  (candidate.element.attribute? "key").map Text.trim == some key

/-- Reads the argument of a schema entry, or finds that it is left out. -/
def readEntry (around : Surroundings) (supplied : List Candidate) (base : Nat)
    (entry : SchemaEntry) : Except CompileError (Option ArgumentRead) := do
  let missing : CompileError :=
    .document (.missingArgument entry.key entry.kind.display around.place)
  let given := supplied.filter fun candidate => candidate.hasKey entry.key
  match entry.kind, given with
  | .single _, [] =>
    match entry.default with
    | some (type, value) =>
      return some ⟨.literal (← readLiteral type value entry.key around.place), []⟩
    | none => if entry.isOptional then return none else throw missing
  | .single item, [candidate] => some <$> readItem around entry.key item base candidate
  | .single _, _ => throw (.duplicateArgument entry.key around.place)
  | .collection _, [] => if entry.isOptional then return none else throw missing
  | .collection item, given =>
    let (items, nested) ← readItems around entry.key item base given
    return some ⟨.collection items, nested⟩

/-- Reads the arguments of a schema, in its order. -/
def readEntries (around : Surroundings) (supplied : List Candidate) :
    (base : Nat) → List SchemaEntry →
      Except CompileError (List (String × Argument .raw) × List (Component .raw))
  | _, [] => return ([], [])
  | base, entry :: rest => do
    match ← readEntry around supplied base entry with
    | none => readEntries around supplied base rest
    | some first =>
      let (arguments, nested) ←
        readEntries around supplied (base + first.nested.length) rest
      return ((entry.key, first.argument) :: arguments, first.nested ++ nested)

/-- Checks that an argument element has a key of the schema. -/
def checkKey (place : String) (schema : List SchemaEntry) (element : Element) :
    Except CompileError Unit := do
  let key ← element.required "key" place
  unless schema.any fun entry => entry.key == key do
    throw (.document (.unknownArgument key place))

/-- Checks that a collection has as many items as the component's type string says. -/
def checkCollectionSize (component : Component .raw) (parameter : String) (size : Nat)
    (entry : String × Argument .raw) : Except CompileError Unit :=
  match entry.2 with
  | .collection items =>
    if items.length = size then .ok ()
    else
      .error (.document
        (.wrongCollectionSize component.describe parameter size entry.1 items.length))
  | _ => .ok ()

/-- Checks every collection of a component against every size in its type string. -/
def checkSizes (component : Component .raw) : Except CompileError Unit :=
  component.kind.entry.params.forM fun
    | .literal _ => .ok ()
    | .size parameter =>
      match component.sizeParameter? parameter with
      | some size => component.arguments.forM (checkCollectionSize component parameter size)
      | none => .ok ()

/-- Reads a component from its element's children. -/
def readComponent (children : List Candidate) : ComponentReader :=
  fun category typeText key placement base => do
    let found ← category.dispatch typeText
    let schema := found.kind.entry.schema
    let place := s!"{found.kind.name} '{key}'"
    let supplied := children.filter fun candidate => candidate.element.name == "argument"
    supplied.forM fun candidate => checkKey place schema candidate.element
    let (arguments, nested) ←
      readEntries ⟨place, ⟨base⟩, placement.owner⟩ supplied (base + 1) schema
    let component : Component .raw :=
      { id := ⟨base⟩
        key := key
        kind := found.kind
        attributes := found.attributes
        arguments := arguments
        parent := placement.parent
        owner := placement.owner
        order := placement.order }
    checkSizes component
    return component :: nested

mutual

/-- The reader of the component that an element describes. -/
def componentReader : Element → ComponentReader
  | ⟨_, _, children⟩ => readComponent (candidates children)

/-- The elements with the readers of their components. -/
def candidates : List Element → List Candidate
  | [] => []
  | element :: rest => ⟨element, componentReader element⟩ :: candidates rest

end

end Recordgen.Prototype
