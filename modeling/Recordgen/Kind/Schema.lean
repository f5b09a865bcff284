import Recordgen.Error
import Recordgen.Kind.Category
import Recordgen.Text.Split

/-! # Argument schemas

A schema lists the arguments of a kind of component: the key of each, what it holds, whether it may
be left out, and the literal that stands in for it then. Directives tell how the arguments become
constructor arguments in the generated code.
-/

namespace Recordgen

/-- What a single argument element holds. -/
inductive ItemKind where
  | literal
  | fieldRef
  | referenceRef
  | functionRef
  | nested (category : NestedCategory)
  deriving DecidableEq, Repr

namespace ItemKind

/-- All item kinds, in the order in which messages list them. -/
def all : List ItemKind :=
  [literal, fieldRef, referenceRef, functionRef, nested .valueProvider, nested .rangeProvider,
    nested .referenceProvider, nested .predicateProvider, nested .binder]

/-- The spelling of an item kind. -/
def name : ItemKind → String
  | literal => "literal"
  | fieldRef => "field_ref"
  | referenceRef => "reference_ref"
  | functionRef => "function_ref"
  | nested category => category.category.name

/-- The category of a nested component. -/
def category? : ItemKind → Option Category
  | nested category => some category.category
  | _ => none

/-- Reads an item kind. -/
def parse (text : String) : Except CompileError ItemKind :=
  match all.find? fun kind => kind.name == text with
  | some kind => .ok kind
  | none => .error (.unsupportedType text "argument kind" (all.map name))

end ItemKind

/-- What an argument holds: one item, or a collection of items under one key. -/
inductive ArgumentKind where
  | single (item : ItemKind)
  | collection (item : ItemKind)
  deriving DecidableEq, Repr

namespace ArgumentKind

/-- The kind of each item. -/
def item : ArgumentKind → ItemKind
  | single item => item
  | collection item => item

/-- The spelling of an argument kind. -/
def display : ArgumentKind → String
  | single item => item.name
  | collection item => s!"collection[{item.name}]"

/-- The text between `collection[` and the bracket that ends the text. -/
def collectionInside? (text : String) : Option String :=
  ((Text.afterStart? "collection[".toList text.toList).bind (Text.beforeEnding? [']'])).map
    String.ofList

/-- Reads an argument kind. -/
def parse (text : String) : Except CompileError ArgumentKind :=
  match collectionInside? text with
  | some inside => collection <$> ItemKind.parse inside
  | none => single <$> ItemKind.parse text

end ArgumentKind

/-- One entry of an argument schema. -/
structure SchemaEntry where
  key : String
  kind : ArgumentKind
  /-- Whether the argument may be left out. -/
  isOptional : Bool := false
  /-- The literal that stands in for an argument left out. -/
  default : Option (LiteralType × String) := none
  deriving DecidableEq, Repr

namespace SchemaEntry

/-- An argument with one item that must be given. -/
def one (key : String) (item : ItemKind) : SchemaEntry :=
  { key := key, kind := .single item }

/-- An argument with at least one item. -/
def many (key : String) (item : ItemKind) : SchemaEntry :=
  { key := key, kind := .collection item }

/-- A literal argument that may be left out. -/
def defaulted (key : String) (type : LiteralType) (value : String) : SchemaEntry :=
  { key := key, kind := .single .literal, isOptional := true, default := some (type, value) }

end SchemaEntry

/-- A parameter of a type string, kept as an attribute of the component under the given name. -/
inductive TypeParameter where
  | literal (name : String)
  | size (name : String)
  deriving DecidableEq, Repr

/-- The attribute that keeps the parameter. -/
def TypeParameter.name : TypeParameter → String
  | literal name => name
  | size name => name

/-- How one or more constructor arguments are made. -/
inductive Directive where
  /-- The value of a literal argument. -/
  | literal (key : String)
  /-- A fixed text. -/
  | verbatim (text : String)
  /-- The configuration, under the name it has where the constructor is called. -/
  | environment (name : String)
  /-- The member variable of the setter that is bound to a field. -/
  | fieldSetter (key : String)
  /-- The inspector of the generator that the surrounding reference setter refers to. -/
  | sequenceInspector
  /-- A function registered in the configuration. -/
  | function (key : String)
  /-- The member variables of nested components. -/
  | nested (key : String)
  /-- A pointer to the callback that a literal argument names. -/
  | callback (key : String)
  /-- A function that reads a field through its path. -/
  | fieldAccessor (key : String)
  deriving DecidableEq, Repr

end Recordgen
