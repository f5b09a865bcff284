import Recordgen.Text.Hex

/-! # Strings in TOML

A basic string stands between `"` and knows escapes, a literal string stands between `'` and does
not. Both exist with three quotes, and then go over several lines: a line break right after the
opening quotes does not count, and a backslash at the end of a line joins it with the next text.
-/

namespace Recordgen.Toml

/-- Whether a character may stand for itself in a string. -/
def isPrintable (c : Char) : Bool :=
  c = '\t' || (0x20 ≤ c.toNat && c.toNat ≠ 0x7F)

/-- What a backslash and a letter stand for. -/
def unescape? : Char → Option Char
  | 'b' => some '\x08'
  | 't' => some '\t'
  | 'n' => some '\n'
  | 'f' => some '\x0c'
  | 'r' => some '\r'
  | '"' => some '"'
  | '\\' => some '\\'
  | _ => none

/-- The character with the given hexadecimal number. -/
def charOfHex? (digits : List Char) : Option Char :=
  (Text.readHex? digits).bind Text.charOfNat?

/-- Puts a character in front of a string that was read. -/
def consChar (c : Char) (text : List Char × List Char) : List Char × List Char :=
  (c :: text.1, text.2)

/-- Reads a basic string from behind its opening quote. -/
def basicString : List Char → Option (List Char × List Char)
  | [] => none
  | '"' :: rest => some ([], rest)
  | '\\' :: 'u' :: a :: b :: c :: d :: rest => do
    return consChar (← charOfHex? [a, b, c, d]) (← basicString rest)
  | '\\' :: 'U' :: a :: b :: c :: d :: e :: f :: g :: h :: rest => do
    return consChar (← charOfHex? [a, b, c, d, e, f, g, h]) (← basicString rest)
  | '\\' :: c :: rest => do
    return consChar (← unescape? c) (← basicString rest)
  | c :: rest =>
    if isPrintable c then (basicString rest).map (consChar c) else none

/-- Reads a literal string from behind its opening quote. -/
def literalString : List Char → Option (List Char × List Char)
  | [] => none
  | '\'' :: rest => some ([], rest)
  | c :: rest => if isPrintable c then (literalString rest).map (consChar c) else none

/-- Where the reader of a basic string of several lines stands. -/
inductive Joining where
  | no
  /-- After a backslash; the line has yet to end. -/
  | sameLine
  /-- After a backslash and the end of its line. -/
  | nextLine
  deriving DecidableEq, Repr

/-- Reads a basic string of several lines from behind its opening quotes. Up to two quotes may stand
in front of the closing ones. -/
def basicLines : Joining → List Char → Option (List Char × List Char)
  | _, [] => none
  | .sameLine, c :: rest =>
    if c = ' ' || c = '\t' then basicLines .sameLine rest
    else if c = '\n' then basicLines .nextLine rest
    else if c = '\r' && rest.head? = some '\n' then basicLines .sameLine rest
    else none
  | .nextLine, ' ' :: rest => basicLines .nextLine rest
  | .nextLine, '\t' :: rest => basicLines .nextLine rest
  | .nextLine, '\n' :: rest => basicLines .nextLine rest
  | .nextLine, '\r' :: '\n' :: rest => basicLines .nextLine rest
  | _, '"' :: '"' :: '"' :: '"' :: '"' :: rest => some (['"', '"'], rest)
  | _, '"' :: '"' :: '"' :: '"' :: rest => some (['"'], rest)
  | _, '"' :: '"' :: '"' :: rest => some ([], rest)
  | _, '\\' :: 'u' :: a :: b :: c :: d :: rest => do
    return consChar (← charOfHex? [a, b, c, d]) (← basicLines .no rest)
  | _, '\\' :: 'U' :: a :: b :: c :: d :: e :: f :: g :: h :: rest => do
    return consChar (← charOfHex? [a, b, c, d, e, f, g, h]) (← basicLines .no rest)
  | _, '\\' :: c :: rest =>
    match unescape? c with
    | some plain => (basicLines .no rest).map (consChar plain)
    | none =>
      if c = ' ' || c = '\t' then basicLines .sameLine rest
      else if c = '\n' then basicLines .nextLine rest
      else if c = '\r' && rest.head? = some '\n' then basicLines .sameLine rest
      else none
  | _, '\n' :: rest => (basicLines .no rest).map (consChar '\n')
  | _, '\r' :: '\n' :: rest => (basicLines .no rest).map (consChar '\n')
  | _, c :: rest =>
    if isPrintable c then (basicLines .no rest).map (consChar c) else none

/-- Reads a literal string of several lines from behind its opening quotes. -/
def literalLines : List Char → Option (List Char × List Char)
  | [] => none
  | '\'' :: '\'' :: '\'' :: '\'' :: '\'' :: rest => some (['\'', '\''], rest)
  | '\'' :: '\'' :: '\'' :: '\'' :: rest => some (['\''], rest)
  | '\'' :: '\'' :: '\'' :: rest => some ([], rest)
  | '\n' :: rest => (literalLines rest).map (consChar '\n')
  | '\r' :: '\n' :: rest => (literalLines rest).map (consChar '\n')
  | c :: rest => if isPrintable c then (literalLines rest).map (consChar c) else none

/-- Leaves out a line break at the front. -/
def skipLineBreak : List Char → List Char
  | '\n' :: rest => rest
  | '\r' :: '\n' :: rest => rest
  | text => text

/-- Reads a string of any kind. -/
def readString : List Char → Option (List Char × List Char)
  | '"' :: '"' :: '"' :: rest => basicLines .no (skipLineBreak rest)
  | '"' :: rest => basicString rest
  | '\'' :: '\'' :: '\'' :: rest => literalLines (skipLineBreak rest)
  | '\'' :: rest => literalString rest
  | _ => none

end Recordgen.Toml
