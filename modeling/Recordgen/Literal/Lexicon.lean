import Recordgen.LiteralType
import Recordgen.Text.Digit

/-! # Plain literals

The lexical grammar of each literal type. Digits are decimal digits of any script.
-/

namespace Recordgen.Literal

/-- One or more digits and nothing else. -/
def isDigits (text : List Char) : Bool :=
  !text.isEmpty && text.all Text.isDigit

/-- Drops one plus or minus sign. -/
def dropSign : List Char → List Char
  | '+' :: rest => rest
  | '-' :: rest => rest
  | text => text

/-- Drops one plus sign. -/
def dropPlus : List Char → List Char
  | '+' :: rest => rest
  | text => text

/-- Nothing, or an exponent: the letter e, an optional sign and digits. -/
def isExponent : List Char → Bool
  | [] => true
  | c :: rest => (c = 'e' || c = 'E') && isDigits (dropSign rest)

/-- Digits with an optional point among, before or after them, and an optional exponent. -/
def isDecimal (text : List Char) : Bool :=
  let unsigned := dropSign text
  let whole := unsigned.takeWhile Text.isDigit
  match unsigned.dropWhile Text.isDigit with
  | '.' :: rest =>
    let fraction := rest.takeWhile Text.isDigit
    (!whole.isEmpty || !fraction.isEmpty) && isExponent (rest.dropWhile Text.isDigit)
  | rest => !whole.isEmpty && isExponent rest

/-- Four, two and two digits divided by hyphens. -/
def isDate : List Char → Bool
  | [a, b, c, d, '-', e, f, '-', g, h] => [a, b, c, d, e, f, g, h].all Text.isDigit
  | _ => false

/-- Whether a text is in the lexical grammar of a type. -/
def inLexicon : LiteralType → List Char → Bool
  | .string, _ => true
  | .char, text => text.length = 1
  | .bool, text =>
    text = "true".toList || text = "false".toList || text = ['1'] || text = ['0']
  | .date, text => isDate text
  | .decimal, text => isDecimal text
  | type, text => if type.isUnsigned then isDigits (dropPlus text) else isDigits (dropSign text)

end Recordgen.Literal
