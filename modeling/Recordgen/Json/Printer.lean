import Recordgen.Json.Basic

/-! # Printing JSON

Every item and every member stands on a line of its own, indented by two blanks a level. Quotes,
backslashes and control characters are escaped, and nothing else is.
-/

namespace Recordgen

/-- The spelling of a unit inside a text. -/
def TextUnit.print : TextUnit → List Char
  | half code => '\\' :: 'u' :: Text.fourHexDigits code
  | char '"' => ['\\', '"']
  | char '\\' => ['\\', '\\']
  | char '\n' => ['\\', 'n']
  | char '\r' => ['\\', 'r']
  | char '\t' => ['\\', 't']
  | char '\x08' => ['\\', 'b']
  | char '\x0c' => ['\\', 'f']
  | char c => if c.toNat < 0x20 then '\\' :: 'u' :: Text.fourHexDigits c.toNat else [c]

namespace JsonValue

/-- The spelling of a text. -/
def printText (units : List TextUnit) : List Char :=
  '"' :: units.flatMap TextUnit.print ++ ['"']

/-- A new line at the given level. -/
def newLine (level : Nat) : List Char :=
  '\n' :: List.replicate (2 * level) ' '

mutual

/-- The spelling of a value that stands at the given level. -/
def print (level : Nat) : JsonValue → List Char
  | null => "null".toList
  | boolean value => if value then "true".toList else "false".toList
  | number => ['0']
  | text units => printText units
  | array [] => ['[', ']']
  | array (item :: items) =>
    '[' :: newLine (level + 1) ++ print (level + 1) item ++ printItems (level + 1) items ++
      newLine level ++ [']']
  | object [] => ['{', '}']
  | object (member :: members) =>
    '{' :: newLine (level + 1) ++ printMember (level + 1) member ++
      printMembers (level + 1) members ++ newLine level ++ ['}']

/-- The spelling of items that follow an item. -/
def printItems (level : Nat) : List JsonValue → List Char
  | [] => []
  | item :: items => ',' :: newLine level ++ print level item ++ printItems level items

/-- The spelling of a member. -/
def printMember (level : Nat) : List TextUnit × JsonValue → List Char
  | (name, value) => printText name ++ [':', ' '] ++ print level value

/-- The spelling of members that follow a member. -/
def printMembers (level : Nat) : List (List TextUnit × JsonValue) → List Char
  | [] => []
  | member :: members =>
    ',' :: newLine level ++ printMember level member ++ printMembers level members

end

/-- The text of a value. -/
def pretty (value : JsonValue) : String :=
  String.ofList (print 0 value)

end JsonValue

end Recordgen
