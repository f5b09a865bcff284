import Recordgen.Error
import Recordgen.Text.Blank
import Recordgen.Text.Split

/-! # Type strings

A type string is a lower-case name with optional parameters: `name` or `name[first;second]`. Blanks
around the whole and around each parameter do not count.
-/

namespace Recordgen

/-- A name with parameters. -/
structure TypeString where
  name : String
  params : List String
  deriving DecidableEq, Repr

namespace TypeString

/-- Whether `c` can begin a name. -/
def isNameStart (c : Char) : Bool :=
  c.isLower || c = '_'

/-- Whether `c` can stand inside a name. -/
def isNameRest (c : Char) : Bool :=
  isNameStart c || c.isDigit

/-- Whether `c` can stand between the brackets. -/
def isParamChar (c : Char) : Bool :=
  c ≠ '[' && c ≠ ']'

/-- Splits a name off the front of a text. -/
def readName? : List Char → Option (List Char × List Char)
  | [] => none
  | c :: rest =>
    if isNameStart c then some (c :: rest.takeWhile isNameRest, rest.dropWhile isNameRest) else none

/-- Reads what follows the name: nothing, or one pair of brackets that ends the text. -/
def readParams? : List Char → Option (List String)
  | [] => some []
  | '[' :: rest =>
    let inside := rest.takeWhile isParamChar
    let params := (Text.splitAtChar ';' inside).map Text.trimChars
    if rest.dropWhile isParamChar = [']'] && params.all (fun part => !part.isEmpty) then
      some (params.map String.ofList)
    else none
  | _ => none

/-- Reads a type string from characters without blanks at the ends. -/
def readChars? (text : List Char) : Option TypeString :=
  (readName? text).bind fun (name, rest) =>
    (readParams? rest).map fun params => ⟨String.ofList name, params⟩

/-- Reads a type string. -/
def parse (text : String) : Except CompileError TypeString :=
  match readChars? (Text.trimChars text.toList) with
  | some typeString => .ok typeString
  | none => .error (.malformed (.typeString text))

/-- Writes a type string. -/
def display (typeString : TypeString) : String :=
  match typeString.params with
  | [] => typeString.name
  | params => s!"{typeString.name}[" ++ ";".intercalate params ++ "]"

end TypeString

end Recordgen
