import Recordgen.Json.Basic

/-! # Reading JSON

A reader takes a value from the front of a text and gives what follows it. Arrays and objects may
nest to any depth; the reader is given as many steps as the text can need.
-/

namespace Recordgen.JsonValue

/-- Whether a character may stand between tokens. -/
def isSpace (c : Char) : Bool :=
  c = ' ' || c = '\n' || c = '\t' || c = '\r'

/-- Leaves out what may stand between tokens. -/
def skipSpace (text : List Char) : List Char :=
  text.dropWhile isSpace

/-- What a backslash and a letter stand for. -/
def unescape? : Char → Option Char
  | '"' => some '"'
  | '\\' => some '\\'
  | '/' => some '/'
  | 'b' => some '\x08'
  | 'f' => some '\x0c'
  | 'n' => some '\n'
  | 'r' => some '\r'
  | 't' => some '\t'
  | _ => none

/-- Reads a text from behind its opening quote. -/
def readText : List Char → Option (List TextUnit × List Char)
  | [] => none
  | '"' :: rest => some ([], rest)
  | '\\' :: 'u' :: a :: b :: c :: d :: rest => do
    let code ← Text.readHex? [a, b, c, d]
    let (units, rest) ← readText rest
    return (.ofCode code :: units, rest)
  | '\\' :: c :: rest => do
    let plain ← unescape? c
    let (units, rest) ← readText rest
    return (.char plain :: units, rest)
  | c :: rest =>
    if c.toNat < 0x20 then none
    else do
      let (units, rest) ← readText rest
      return (.char c :: units, rest)

/-- Leaves out digits, of which there must be one at least. -/
def skipDigits? : List Char → Option (List Char)
  | c :: rest => if c.isDigit then some (rest.dropWhile Char.isDigit) else none
  | [] => none

/-- Leaves out the whole part of a number; only zero itself starts with a zero. -/
def skipWhole? : List Char → Option (List Char)
  | '0' :: rest => some rest
  | input => skipDigits? input

/-- Leaves out the fraction of a number. -/
def skipFraction? : List Char → Option (List Char)
  | '.' :: rest => skipDigits? rest
  | input => some input

/-- Leaves out the sign of an exponent. -/
def skipSign : List Char → List Char
  | '+' :: rest | '-' :: rest => rest
  | input => input

/-- Leaves out the exponent of a number. -/
def skipExponent? : List Char → Option (List Char)
  | 'e' :: rest | 'E' :: rest => skipDigits? (skipSign rest)
  | input => some input

/-- Reads a number. -/
def readNumber (input : List Char) : Option (JsonValue × List Char) := do
  let unsigned := match input with
    | '-' :: rest => rest
    | input => input
  let rest ← skipExponent? (← skipFraction? (← skipWhole? unsigned))
  return (number, rest)

mutual

/-- Reads a value; at most `steps` values, items and members are entered. -/
def readValue : (steps : Nat) → List Char → Option (JsonValue × List Char)
  | 0, _ => none
  | steps + 1, input =>
    match skipSpace input with
    | 'n' :: 'u' :: 'l' :: 'l' :: rest => some (null, rest)
    | 't' :: 'r' :: 'u' :: 'e' :: rest => some (boolean true, rest)
    | 'f' :: 'a' :: 'l' :: 's' :: 'e' :: rest => some (boolean false, rest)
    | '"' :: rest => (readText rest).map fun (units, rest) => (.text units, rest)
    | '[' :: rest =>
      match skipSpace rest with
      | ']' :: rest => some (array [], rest)
      | rest => (readItems steps rest).map fun (items, rest) => (array items, rest)
    | '{' :: rest =>
      match skipSpace rest with
      | '}' :: rest => some (object [], rest)
      | rest => (readMembers steps rest).map fun (members, rest) => (object members, rest)
    | rest => readNumber rest

/-- Reads the items of an array, up to its end. -/
def readItems : (steps : Nat) → List Char → Option (List JsonValue × List Char)
  | 0, _ => none
  | steps + 1, input => do
    let (item, rest) ← readValue steps input
    match skipSpace rest with
    | ']' :: rest => return ([item], rest)
    | ',' :: rest =>
      let (items, rest) ← readItems steps rest
      return (item :: items, rest)
    | _ => none

/-- Reads the members of an object, up to its end. -/
def readMembers : (steps : Nat) → List Char →
    Option (List (List TextUnit × JsonValue) × List Char)
  | 0, _ => none
  | steps + 1, input => do
    let '"' :: rest := skipSpace input | none
    let (name, rest) ← readText rest
    let ':' :: rest := skipSpace rest | none
    let (value, rest) ← readValue steps rest
    match skipSpace rest with
    | '}' :: rest => return ([(name, value)], rest)
    | ',' :: rest =>
      let (members, rest) ← readMembers steps rest
      return ((name, value) :: members, rest)
    | _ => none

end

/-- Reads a text that holds one value and nothing else. -/
def parse? (text : String) : Option JsonValue :=
  match readValue (2 * text.length + 2) text.toList with
  | some (value, rest) => if (skipSpace rest).isEmpty then some value else none
  | none => none

end Recordgen.JsonValue
