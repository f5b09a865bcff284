import Recordgen.Attributes
import Recordgen.Kind.Catalogue
import Recordgen.Text.Blank
import Recordgen.Text.Decimal
import Recordgen.Text.Digit

/-! # Kinds by type string

A component names its kind by a type string: the kind's name, followed by the parameters in brackets
when it has any. A type string is looked up among the kinds of one category. The whole text and the
parameters are kept as attributes of the component.
-/

namespace Recordgen

namespace TypeParameter

/-- Whether a text has the shape of a number without leading zeros, in digits of any script behind
an ASCII digit other than zero. -/
def isSizeText : List Char → Bool
  | [] => false
  | c :: rest => c.isDigit && c ≠ '0' && rest.all Text.isDigit

/-- Whether a text has the shape of the parameter. -/
def admits : TypeParameter → List Char → Bool
  | literal _, text => (LiteralType.ofName? (String.ofList text)).isSome
  | size _, text => isSizeText text

/-- The value that is kept of a parameter. A size must be a signed 64-bit number in ASCII digits. -/
def value (typeText : String) : TypeParameter → List Char → Except CompileError AttributeValue
  | literal _, text => .ok (.text (String.ofList text))
  | size _, text =>
    match Text.readBounded? Text.maxSigned text with
    | some number => .ok (.integer number)
    | none => .error (.malformed (.sizeOutOfRange (String.ofList text) typeText))

end TypeParameter

/-- The texts of the parameters between the brackets, if each has the shape of its parameter. -/
def admittedParts? (params : List TypeParameter) (inside : List Char) : Option (List (List Char)) :=
  let parts := Text.splitAtChar ';' inside
  if parts.length = params.length ∧ (params.zip parts).all fun (param, part) => param.admits part
  then some parts
  else none

/-- The texts of the parameters of a type string, if it is one of the given entry. -/
def CatalogueEntry.captures? (entry : CatalogueEntry) (text : List Char) :
    Option (List (List Char)) :=
  (Text.afterStart? entry.name.toList text).bind fun rest =>
    match entry.params, rest with
    | [], [] => some []
    | param :: params, '[' :: rest =>
      (Text.beforeEnding? [']'] rest).bind (admittedParts? (param :: params))
    | _, _ => none

/-- A kind with the attributes that its type string gives. -/
structure KindMatch where
  kind : Kind
  attributes : Attributes
  deriving DecidableEq, Repr

/-- The attributes of a type string: the text under `type`, then each parameter. -/
def kindAttributes (typeText : String) (params : List (TypeParameter × List Char)) :
    Except CompileError Attributes :=
  params.foldlM
    (fun attributes (param, text) => do
      return attributes.set param.name (← param.value typeText text))
    (Attributes.set {} "type" (.text typeText))

/-- The kind of a category that a type string names. -/
def Category.dispatch (category : Category) (text : String) : Except CompileError KindMatch :=
  let typeText := Text.trim text
  let found := category.candidates.findSome? fun kind =>
    (kind.entry.captures? typeText.toList).map fun parts => (kind, parts)
  match found with
  | some (kind, parts) => do
    return ⟨kind, ← kindAttributes typeText (kind.entry.params.zip parts)⟩
  | none =>
    .error (.unsupportedType typeText category.name
      (category.candidates.map fun kind => kind.entry.signature))

end Recordgen
