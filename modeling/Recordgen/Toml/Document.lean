import Recordgen.Toml.Text

/-! # TOML documents with strings alone

The documents read here are lists of keys with strings. Tables, dotted keys and values of other
types are part of TOML, but no options file has a use for them, and they are refused like malformed
text.
-/

namespace Recordgen.Toml

/-- Leaves out blanks. -/
def skipBlanks (text : List Char) : List Char :=
  text.dropWhile fun c => c = ' ' || c = '\t'

/-- Whether a character may stand in a key without quotes. -/
def isKeyChar (c : Char) : Bool :=
  c.isAlphanum || c = '_' || c = '-'

/-- Reads a key. -/
def readKey : List Char → Option (List Char × List Char)
  | '"' :: rest => basicString rest
  | '\'' :: rest => literalString rest
  | text =>
    match text.takeWhile isKeyChar with
    | [] => none
    | key => some (key, text.dropWhile isKeyChar)

/-- Reads the end of a line. -/
def readLineEnd : List Char → Option (List Char)
  | [] => some []
  | '\n' :: rest => some rest
  | '\r' :: '\n' :: rest => some rest
  | _ => none

/-- Reads what may follow on a line: blanks and a comment. -/
def readLineRest (text : List Char) : Option (List Char) :=
  match skipBlanks text with
  | '#' :: rest => readLineEnd (rest.dropWhile isPrintable)
  | rest => readLineEnd rest

/-- Reads a key with its string. -/
def readEntry (text : List Char) : Option ((String × String) × List Char) := do
  let (key, rest) ← readKey text
  let '=' :: rest := skipBlanks rest | none
  let (value, rest) ← readString (skipBlanks rest)
  return ((String.ofList key, String.ofList value), rest)

/-- Reads at most `lines` lines, some of which may hold an entry. -/
def readEntries : (lines : Nat) → List Char → Option (List (String × String))
  | 0, text => if text.isEmpty then some [] else none
  | _, [] => some []
  | lines + 1, text =>
    match readLineRest text with
    | some rest => readEntries lines rest
    | none => do
      let (entry, rest) ← readEntry (skipBlanks text)
      return entry :: (← readEntries lines (← readLineRest rest))

/-- Leaves out a byte order mark at the front. -/
def skipMark : List Char → List Char
  | '\uFEFF' :: rest => rest
  | text => text

/-- The entries of a document, in order. -/
def parse? (text : String) : Option (List (String × String)) :=
  readEntries text.length (skipMark text.toList)

end Recordgen.Toml
