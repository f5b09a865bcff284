import Recordgen.Error.Markup
import Recordgen.Text.Bytes

/-! # References in attribute values

An attribute value may hold references: `&lt;`, `&gt;`, `&amp;`, `&apos;` and `&quot;` for five
characters, and `&#…;` or `&#x…;` for a character by its code. `escape` writes a value and
`unescape` reads it.
-/

namespace Recordgen.Markup

/-- The character that a predefined entity stands for. -/
def entity? (name : List Char) : Option Char :=
  if name = "lt".toList then some '<'
  else if name = "gt".toList then some '>'
  else if name = "amp".toList then some '&'
  else if name = "apos".toList then some '\''
  else if name = "quot".toList then some '"'
  else none

/-- The value of a digit in base ten or sixteen. -/
def digitIn? (base : Nat) (c : Char) : Option Nat :=
  let value? :=
    if '0' ≤ c ∧ c ≤ '9' then some (c.toNat - '0'.toNat)
    else if 'a' ≤ c ∧ c ≤ 'f' then some (c.toNat - 'a'.toNat + 10)
    else if 'A' ≤ c ∧ c ≤ 'F' then some (c.toNat - 'A'.toNat + 10)
    else none
  value?.filter (· < base)

/-- The greatest number a character code is read into. -/
def maxCode : Nat := 0xFFFFFFFF

/-- Reads the digits of a code after `value`. At each character, a wrong digit is noticed before a
number that is too large. -/
def readCodeDigits (base value : Nat) : List Char → Except CharacterFault Nat
  | [] => .ok value
  | c :: rest =>
    match digitIn? base c with
    | none => .error .notADigit
    | some digit =>
      let next := value * base + digit
      if next ≤ maxCode then readCodeDigits base next rest else .error .tooLarge

/-- Reads an unsigned code. -/
def readCode (base : Nat) (digits : List Char) : Except CharacterFault Nat :=
  match digits with
  | [] => .error .noDigits
  | '+' :: _ | '-' :: _ => .error .sign
  | digits => readCodeDigits base 0 digits

/-- The character with the given code. -/
def characterOfCode (code : Nat) : Except CharacterFault Char :=
  if code = 0 then .error .zero
  else if h : code.isValidChar then .ok (Char.ofNatAux code h)
  else .error (.notACharacter code)

/-- The character of a numeric reference, from what follows the number sign. -/
def characterReference (digits : List Char) : Except CharacterFault Char :=
  match digits with
  | 'x' :: digits => readCode 16 digits >>= characterOfCode
  | digits => readCode 10 digits >>= characterOfCode

/-- The character that a reference stands for. `offset` is the position of the ampersand and
`inside` what stands between it and the semicolon. -/
def referencedCharacter (offset : Nat) (inside : List Char) : Except ReferenceFault Char :=
  match inside with
  | '#' :: digits => (characterReference digits).mapError .badCharacter
  | name =>
    match entity? name with
    | some c => .ok c
    | none =>
      .error (.unknownEntity (offset + 1) (offset + 1 + Text.byteSize name) (String.ofList name))

/-- Replaces the references in a part of a value. `offset` is the position of the part in a value of
`total` bytes; the first `taken` characters belong to a reference already replaced. -/
def unescapeFrom (total offset : Nat) : (taken : Nat) → List Char →
    Except ReferenceFault (List Char)
  | _, [] => .ok []
  | taken + 1, c :: rest => unescapeFrom total (offset + c.utf8Size) taken rest
  | 0, c :: rest =>
    if c = '&' then
      let inside := rest.takeWhile fun d => d ≠ '&' && d ≠ ';'
      match rest.dropWhile fun d => d ≠ '&' && d ≠ ';' with
      | ';' :: _ => do
        let replaced ← referencedCharacter offset inside
        let others ← unescapeFrom total (offset + c.utf8Size) (inside.length + 1) rest
        return replaced :: others
      | _ => .error (.unterminated offset total)
    else (unescapeFrom total (offset + c.utf8Size) 0 rest).map (c :: ·)

/-- Replaces the references in a value. -/
def unescape (value : List Char) : Except ReferenceFault (List Char) :=
  unescapeFrom (Text.byteSize value) 0 0 value

/-- Writes a character so that it can stand in a value between either quotes. -/
def escapeChar (c : Char) : List Char :=
  if c = '&' then "&amp;".toList
  else if c = '<' then "&lt;".toList
  else if c = '>' then "&gt;".toList
  else if c = '"' then "&quot;".toList
  else if c = '\'' then "&apos;".toList
  else [c]

/-- Writes a value with references for the five characters that have a name. -/
def escape (value : List Char) : List Char :=
  value.flatMap escapeChar

end Recordgen.Markup
