import Recordgen.Error
import Recordgen.Text.Decimal
import Recordgen.Text.Digit
import Recordgen.Text.Word

/-! # Field types

A field holds a scalar or a vector of a fixed, positive size. `display` writes a field type as a
document spells it, `parse` reads it, and `code` is the type in the generated code, where the size
of a vector does not show.
-/

namespace Recordgen

/-- The type with the given name, or the list of what would have been one. -/
def LiteralType.parse (text : String) : Except CompileError LiteralType :=
  match LiteralType.ofName? text with
  | some type => .ok type
  | none => .error (.unsupportedType text "literal" (LiteralType.all.map LiteralType.name))

/-- The type of a field. -/
inductive FieldType where
  | scalar (element : LiteralType)
  | vector (element : LiteralType) (size : Nat)
  deriving DecidableEq, Repr, Inhabited

namespace FieldType

/-- The type of the values held. -/
def element : FieldType → LiteralType
  | scalar element => element
  | vector element _ => element

/-- The number of values held by a vector. -/
def size? : FieldType → Option Nat
  | scalar _ => none
  | vector _ size => some size

/-- Whether the field holds a single enumeration value. -/
def isEnum (type : FieldType) : Bool :=
  type == scalar .enum

/-- The type in the generated code. -/
def code : FieldType → String
  | scalar element => element.name
  | vector element _ => s!"vector<{element.name}>"

/-- The spelling in a document. -/
def display : FieldType → String
  | scalar element => element.name
  | vector element size => s!"{element.name}[{size}]"

/-- Splits `word[digits]` into the word and the number. The digits may be of any script as far as
the shape is concerned, but only an ASCII number of at most 64 bits makes a vector. -/
def vectorParts? (text : String) : Option (String × Nat) :=
  let chars := text.toList
  let word := chars.takeWhile Text.isWord
  match chars.dropWhile Text.isWord with
  | '[' :: rest =>
    let digits := rest.takeWhile Text.isDigit
    if word ≠ [] ∧ rest.dropWhile Text.isDigit = [']'] then
      (Text.readBounded? Text.maxUnsigned digits).map fun size => (String.ofList word, size)
    else none
  | _ => none

/-- Reads a field type. The element type is checked before the size. -/
def parse (text : String) : Except CompileError FieldType :=
  match vectorParts? text with
  | some (word, size) => do
    let element ← LiteralType.parse word
    if size = 0 then .error (.malformed (.emptyVector text)) else pure (vector element size)
  | none => scalar <$> LiteralType.parse text

end FieldType

end Recordgen
