/-! # Whole numbers in decimal

`readDecimal?` reads a run of ASCII digits as a number, whatever its size; callers that have a limit
compare with it afterwards. `padTwo` writes a number with at least two digits.
-/

namespace Recordgen.Text

/-- The value of an ASCII digit. -/
def digitValue? (c : Char) : Option Nat :=
  if c.isDigit then some (c.toNat - '0'.toNat) else none

/-- The number that a sequence of ASCII digits continues to, after `value` has been read. -/
def readDigits? (value : Nat) : List Char → Option Nat
  | [] => some value
  | c :: rest => (digitValue? c).bind fun digit => readDigits? (10 * value + digit) rest

/-- The number written by a non-empty sequence of ASCII digits. -/
def readDecimal? : List Char → Option Nat
  | [] => none
  | digits => readDigits? 0 digits

/-- The number, when it is written in ASCII digits and does not exceed `limit`. -/
def readBounded? (limit : Nat) (digits : List Char) : Option Nat :=
  (readDecimal? digits).filter (· ≤ limit)

/-- The greatest number of 64 bits. -/
def maxUnsigned : Nat := 0xFFFFFFFFFFFFFFFF

/-- The greatest signed number of 64 bits. -/
def maxSigned : Nat := 0x7FFFFFFFFFFFFFFF

/-- The decimal text of a number, with a zero in front of a single digit. -/
def padTwo (n : Nat) : String :=
  if n < 10 then "0" ++ n.repr else n.repr

end Recordgen.Text
