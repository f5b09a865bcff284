import Recordgen.Text.Split

/-! # Identifiers of the generated code

Keys and names of a document become class names, member names, constants and include guards. All of
them keep exactly the ASCII letters and digits of the name, in order, and differ in case and
underscores alone.
-/

namespace Recordgen.Naming

/-- The maximal runs of ASCII letters and digits. -/
def words (text : List Char) : List (List Char) :=
  (Text.splitWhere (fun c => !c.isAlphanum) text).filter fun word => !word.isEmpty

/-- Makes the first letter a capital. -/
def capitalize : List Char → List Char
  | [] => []
  | c :: rest => c.toUpper :: rest

/-- Makes the first letter small. -/
def uncapitalize : List Char → List Char
  | [] => []
  | c :: rest => c.toLower :: rest

/-- The words of a name, each with a capital, without anything between: `line_item` gives
`LineItem`. -/
def upperCamelChars (text : List Char) : List Char :=
  (words text).flatMap capitalize

/-- `line_item` gives `LineItem`. -/
def upperCamel (name : String) : String :=
  String.ofList (upperCamelChars name.toList)

/-- `line_item` gives `lineItem`. -/
def lowerCamel (name : String) : String :=
  String.ofList (uncapitalize (upperCamelChars name.toList))

/-- The name of the member that stores a field, reference or setter. -/
def member (name : String) : String :=
  "_" ++ lowerCamel name

/-- A constant under construction: its characters, last one first, and whether the character read
last was a small letter or a digit. -/
structure Constant where
  reversed : List Char := []
  afterSmall : Bool := false

/-- Reads one character of a name into a constant. A run of other characters becomes one underscore,
except at the start; a capital after a small letter or a digit starts a new word. -/
def Constant.push (constant : Constant) (c : Char) : Constant :=
  if c.isAlphanum then
    let divided := if c.isUpper && constant.afterSmall then '_' :: constant.reversed
      else constant.reversed
    ⟨c.toUpper :: divided, c.isLower || c.isDigit⟩
  else
    match constant.reversed with
    | [] | '_' :: _ => ⟨constant.reversed, false⟩
    | reversed => ⟨'_' :: reversed, false⟩

/-- `ship_date` and `shipDate` give `SHIP_DATE`. -/
def constantName (name : String) : String :=
  let constant := name.toList.foldl Constant.push {}
  String.ofList (constant.reversed.dropWhile (· = '_')).reverse

/-- The include guard of a header: `record/base/BaseOrder.h` gives `RECORD_BASE_BASEORDER_H_`. -/
def includeGuard (path : String) : String :=
  String.ofList (path.toList.map (fun c => if c.isAlphanum then c.toUpper else '_') ++ ['_'])

end Recordgen.Naming
