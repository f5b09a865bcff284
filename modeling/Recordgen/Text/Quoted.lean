/-! # Quoted texts of the generated code

A string or character constant of C++ stands between quotes. Inside, a backslash precedes the quote
and itself, and line feed and tab are written as `\n` and `\t`; every other character stands for
itself. `decode` undoes `encode`: a backslash takes the next character with it, and the text ends at
the first quote that no backslash precedes.
-/

namespace Recordgen.Text.Quoted

/-- The inside of a constant between `quote`s. -/
def encode (quote : Char) : List Char → List Char
  | [] => []
  | '\\' :: rest => '\\' :: '\\' :: encode quote rest
  | '\n' :: rest => '\\' :: 'n' :: encode quote rest
  | '\t' :: rest => '\\' :: 't' :: encode quote rest
  | c :: rest => if c = quote then '\\' :: c :: encode quote rest else c :: encode quote rest

/-- The character that stands after a backslash, if there is one with this meaning. -/
def unescape? (quote c : Char) : Option Char :=
  if c = '\\' then some '\\'
  else if c = 'n' then some '\n'
  else if c = 't' then some '\t'
  else if c = quote then some quote
  else none

/-- Reads a constant from behind its opening quote: the text, and what follows the closing quote. -/
def decode (quote : Char) : List Char → Option (List Char × List Char)
  | [] => none
  | '\\' :: c :: rest => do
    let plain ← unescape? quote c
    let (text, after) ← decode quote rest
    pure (plain :: text, after)
  | c :: rest =>
    if c = quote then some ([], rest)
    else (decode quote rest).map fun (text, after) => (c :: text, after)

/-- The constant that holds `text`, quotes included. -/
def wrap (quote : Char) (text : String) : String :=
  String.ofList (quote :: encode quote text.toList ++ [quote])

/-- The string constant that holds `text`. -/
def string (text : String) : String :=
  wrap '"' text

/-- The character constant that holds `text`. -/
def character (text : String) : String :=
  wrap '\'' text

end Recordgen.Text.Quoted
