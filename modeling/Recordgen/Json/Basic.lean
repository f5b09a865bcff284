import Recordgen.Text.Hex

/-! # JSON values

A text in JSON is a sequence of units: characters, and halves of surrogate pairs that stand alone.
A text with such a half is well formed but denotes no string.
-/

namespace Recordgen

/-- A unit of a text. -/
inductive TextUnit where
  | char (c : Char)
  /-- Half of a surrogate pair, by its number. -/
  | half (code : Nat)
  deriving DecidableEq, Repr

namespace TextUnit

/-- Whether a number is the first half of a surrogate pair. -/
def isFirstHalf (code : Nat) : Bool :=
  0xD800 ≤ code && code < 0xDC00

/-- Whether a number is the second half of a surrogate pair. -/
def isSecondHalf (code : Nat) : Bool :=
  0xDC00 ≤ code && code < 0xE000

/-- The unit that a number of 16 bits stands for. -/
def ofCode (code : Nat) : TextUnit :=
  if isFirstHalf code || isSecondHalf code then half code else char (Char.ofNat code)

/-- The units of a string. -/
def ofString (text : String) : List TextUnit :=
  text.toList.map char

/-- The characters that units denote; halves count in pairs. -/
def characters? : List TextUnit → Option (List Char)
  | [] => some []
  | char c :: rest => (characters? rest).map (c :: ·)
  | half first :: half second :: rest =>
    if isFirstHalf first && isSecondHalf second then
      (characters? rest).map
        (Char.ofNat (0x10000 + (first - 0xD800) * 0x400 + (second - 0xDC00)) :: ·)
    else none
  | half _ :: _ => none

/-- The string that units denote. -/
def toString? (units : List TextUnit) : Option String :=
  (characters? units).map String.ofList

end TextUnit

/-- A value in JSON. Nothing here depends on numbers, so they are not kept. -/
inductive JsonValue where
  | null
  | boolean (value : Bool)
  | number
  | text (units : List TextUnit)
  | array (items : List JsonValue)
  | object (members : List (List TextUnit × JsonValue))

namespace JsonValue

/-- The value of a string. -/
def ofString (value : String) : JsonValue :=
  text (TextUnit.ofString value)

/-- The object with the given members. -/
def ofMembers (members : List (String × JsonValue)) : JsonValue :=
  object (members.map fun member => (TextUnit.ofString member.1, member.2))

/-- The string that a value denotes. -/
def string? : JsonValue → Option String
  | text units => TextUnit.toString? units
  | _ => none

/-- What each item of an array denotes. -/
def list? {α : Type} (item? : JsonValue → Option α) : JsonValue → Option (List α)
  | array items => items.mapM item?
  | _ => none

/-- The fields of a record, by name. A record is written as an object, whose other members do not
count, or as an array of its fields in order. No field is given twice. -/
def fields? (names : List String) : JsonValue → Option (List (String × JsonValue))
  | object members => do
    let members ← members.mapM fun member =>
      (TextUnit.toString? member.1).map fun name => (name, member.2)
    let known := members.filter fun member => names.contains member.1
    if (known.map Prod.fst).Nodup then some known else none
  | array items => if items.length ≤ names.length then some (names.zip items) else none
  | _ => none

end JsonValue

end Recordgen
