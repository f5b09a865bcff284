import Recordgen.Literal.Token
import Recordgen.Literal.Lexicon
import Recordgen.Text.Split

/-! # Literals

A literal is written in one of four forms: `NULL`, a parameter token that fills the whole text, an
expression between `$` braces with at least one token in it, or a plain text that may begin with a
cast. `parse` tells the forms apart and `print` writes them back.
-/

namespace Recordgen.Literal

/-- The form of a literal. -/
inductive Form where
  | parameter (name : String) (cast : Option LiteralType)
  | expression (inner : String)
  | null
  | plain (value : String) (cast : Option LiteralType)
  deriving DecidableEq, Repr

/-- What stands between `$`, an opening brace and a closing brace, if the text has this shape. -/
def expressionInside? (raw : List Char) : Option (List Char) :=
  (Text.afterStart? ['$', '\x7b'] raw).bind (Text.beforeEnding? ['\x7d'])

/-- The token that fills the whole text. -/
def wholeToken? : List Char → Option TokenText
  | '%' :: rest => (TokenText.read? rest).filter fun token => token.chars = '%' :: rest
  | _ => none

/-- Splits a cast off the front of a plain text. Brackets around anything but a type name belong to
the text. -/
def splitCast (raw : List Char) : Option LiteralType × List Char :=
  match raw with
  | '(' :: rest =>
    match rest.dropWhile (· ≠ ')') with
    | _ :: value =>
      match LiteralType.ofName? (String.ofList (rest.takeWhile (· ≠ ')'))) with
      | some cast => (some cast, value)
      | none => (none, raw)
    | [] => (none, raw)
  | _ => (none, raw)

namespace Form

/-- Reads a plain text, by the grammar of its cast or else of its type. -/
def parsePlain (type : LiteralType) (raw : List Char) : Except LiteralFault Form :=
  let (cast, value) := splitCast raw
  let target := cast.getD type
  if inLexicon target value then .ok (plain (String.ofList value) cast)
  else .error (.notOfType (String.ofList value) target)

/-- Reads an expression from the text between its braces. -/
def parseExpression (raw inner : String) : Except LiteralFault Form := do
  if (← parameterTokens inner).isEmpty then throw (.noToken raw)
  return expression inner

/-- Reads a literal of the given type. -/
def parse (type : LiteralType) (raw : String) : Except LiteralFault Form :=
  if raw = "NULL" then .ok null
  else
    match wholeToken? raw.toList with
    | some token => return parameter token.name (← readCast token.cast)
    | none =>
      match expressionInside? raw.toList with
      | some inner => parseExpression raw (String.ofList inner)
      | none => parsePlain type raw.toList

/-- The text of a cast: a type name in brackets. -/
def printCast : Option LiteralType → String
  | none => ""
  | some cast => s!"({cast.name})"

/-- Writes a literal. -/
def print : Form → String
  | parameter name cast => "%" ++ printCast cast ++ name ++ "%"
  | expression inner => "$\x7b" ++ inner ++ "\x7d"
  | null => "NULL"
  | plain value cast => printCast cast ++ value

/-- Whether the literal is written out, without parameters. -/
def isPlain : Form → Bool
  | plain _ _ => true
  | _ => false

end Form

end Recordgen.Literal

namespace Recordgen

/-- A literal with its declared type and its text in the document. -/
structure Literal where
  type : LiteralType
  raw : String
  form : Literal.Form
  deriving DecidableEq, Repr

/-- Reads a literal of the given type. -/
def Literal.read (type : LiteralType) (raw : String) : Except LiteralFault Literal := do
  return ⟨type, raw, ← Literal.Form.parse type raw⟩

end Recordgen
