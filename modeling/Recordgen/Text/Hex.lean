/-! # Hexadecimal numbers -/

namespace Recordgen.Text

/-- The value of a hexadecimal digit, capital or small. -/
def hexDigit? (c : Char) : Option Nat :=
  if c.isDigit then some (c.toNat - '0'.toNat)
  else if 'a' ≤ c ∧ c ≤ 'f' then some (c.toNat - 'a'.toNat + 10)
  else if 'A' ≤ c ∧ c ≤ 'F' then some (c.toNat - 'A'.toNat + 10)
  else none

/-- The number that hexadecimal digits write. -/
def readHex? (digits : List Char) : Option Nat :=
  digits.foldlM (fun value c => (hexDigit? c).map (16 * value + ·)) 0

/-- The character with the given number, if there is one. -/
def charOfNat? (code : Nat) : Option Char :=
  if code.isValidChar then some (Char.ofNat code) else none

/-- The number in at least four hexadecimal digits, small letters. -/
def fourHexDigits (code : Nat) : List Char :=
  [code / 4096 % 16, code / 256 % 16, code / 16 % 16, code % 16].map Nat.digitChar

end Recordgen.Text
