import Recordgen.Text.Ranges

/-! # Blank characters

A blank is a character with the Unicode property White_Space. `trim` cuts blanks off both ends of a
text and leaves the inside alone.
-/

namespace Recordgen.Text

/-- Code points with the property White_Space. -/
def blankRanges : List (Nat × Nat) :=
  [(0x09, 0x0D), (0x20, 0x20), (0x85, 0x85), (0xA0, 0xA0), (0x1680, 0x1680), (0x2000, 0x200A),
    (0x2028, 0x2029), (0x202F, 0x202F), (0x205F, 0x205F), (0x3000, 0x3000)]

/-- Whether `c` is white space. -/
def isBlank (c : Char) : Bool :=
  inRanges blankRanges c

/-- Drops the blanks at the end. -/
def trimEndChars (text : List Char) : List Char :=
  (text.reverse.dropWhile isBlank).reverse

/-- Drops the blanks at both ends. -/
def trimChars (text : List Char) : List Char :=
  trimEndChars (text.dropWhile isBlank)

/-- Drops the blanks at both ends of a string. -/
def trim (text : String) : String :=
  String.ofList (trimChars text.toList)

@[simp]
theorem toList_trim (text : String) : (trim text).toList = trimChars text.toList :=
  String.toList_ofList

end Recordgen.Text
