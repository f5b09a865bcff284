/-! # Cutting a text at separators

`splitWhere` cuts at every character of a class, `splitAtChar` at every occurrence of one character
and `splitScopes` at every `::`. They return at least one part and keep empty parts, so that joining
the parts with the separators gives the text back.
-/

namespace Recordgen.Text

/-- Puts a character in front of the first part. -/
def consPart (c : Char) : List (List Char) → List (List Char)
  | [] => [[c]]
  | part :: parts => (c :: part) :: parts

/-- The parts between the characters that are separators. -/
def splitWhere (isSeparator : Char → Bool) : List Char → List (List Char)
  | [] => [[]]
  | c :: rest =>
    if isSeparator c then [] :: splitWhere isSeparator rest
    else consPart c (splitWhere isSeparator rest)

/-- The parts between the occurrences of `separator`. -/
def splitAtChar (separator : Char) (text : List Char) : List (List Char) :=
  splitWhere (· = separator) text

/-- The parts between the occurrences of `::`, taken from the left. -/
def splitScopes : List Char → List (List Char)
  | [] => [[]]
  | ':' :: ':' :: rest => [] :: splitScopes rest
  | c :: rest => consPart c (splitScopes rest)

/-- What follows `start` in `text`, if `text` begins with it. -/
def afterStart? : (start text : List Char) → Option (List Char)
  | [], text => some text
  | c :: start, d :: text => if c = d then afterStart? start text else none
  | _ :: _, [] => none

/-- What precedes `ending` in `text`, if `text` ends with it. -/
def beforeEnding? (ending text : List Char) : Option (List Char) :=
  (afterStart? ending.reverse text.reverse).map List.reverse

end Recordgen.Text
