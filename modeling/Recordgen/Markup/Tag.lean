import Recordgen.Markup.Element
import Recordgen.Markup.Reference

/-! # Tags

The content of a tag is a name, up to the first space, and attributes. Every attribute is a key, an
equals sign and a value between quotes; spaces are free around the equals sign and not needed
between attributes. Names and keys may carry a prefix up to a colon, which is dropped, and keys that
begin with `xmlns` are namespace bindings and are dropped altogether.
-/

namespace Recordgen.Markup

/-- Whether `c` is a space between the parts of a tag. -/
def isSpace (c : Char) : Bool :=
  c = ' ' || c = '\t' || c = '\r' || c = '\n'

/-- What follows the first colon of a name, or the whole name. -/
def localName (name : List Char) : List Char :=
  match name.dropWhile (· ≠ ':') with
  | _ :: rest => rest
  | [] => name

/-- An attribute as written. -/
structure RawAttribute where
  key : List Char
  value : List Char
  /-- The number of characters from the key to the closing quote. -/
  length : Nat

/-- Whether `c` ends the key of an attribute. -/
def endsKey (c : Char) : Bool :=
  c = '=' || isSpace c

/-- Reads the attribute whose key begins with `first` at `position`. `seen` holds the keys before it
with their positions. -/
def readAttribute (seen : List (List Char × Nat)) (position : Nat) (first : Char)
    (rest : List Char) : Except AttributeFault RawAttribute :=
  let key := first :: rest.takeWhile fun c => !endsKey c
  let afterKey := rest.dropWhile fun c => !endsKey c
  let space := afterKey.takeWhile isSpace
  let equalsPosition := position + Text.byteSize (key ++ space)
  match afterKey.dropWhile isSpace with
  | '=' :: afterEquals =>
    match seen.lookup key with
    | some previous => .error (.duplicated position previous)
    | none =>
      let space' := afterEquals.takeWhile isSpace
      let valuePosition := equalsPosition + 1 + Text.byteSize space'
      match afterEquals.dropWhile isSpace with
      | [] => .error (.expectedValue valuePosition)
      | quote :: afterQuote =>
        if quote = '"' ∨ quote = '\'' then
          let value := afterQuote.takeWhile (· ≠ quote)
          match afterQuote.dropWhile (· ≠ quote) with
          | [] => .error (.unclosedQuote (valuePosition + 1 + Text.byteSize value) quote)
          | _ :: _ =>
            .ok ⟨key, value, key.length + space.length + space'.length + value.length + 3⟩
        else .error (.unquoted valuePosition)
  | _ => .error (.expectedEquals equalsPosition)

/-- The attribute as an element keeps it; a namespace binding is not kept. -/
def RawAttribute.entry (element : String) (raw : RawAttribute) :
    Except Fault (List (String × String)) :=
  if "xmlns".toList.isPrefixOf raw.key then .ok []
  else
    let key := String.ofList (localName raw.key)
    match unescape raw.value with
    | .ok value => .ok [(key, String.ofList value)]
    | .error fault => .error (.badValue key element fault)

/-- Reads the attributes of a tag. `position` is where the text stands in the tag; its first `taken`
characters belong to an attribute already read. -/
def readAttributes (element : String) (seen : List (List Char × Nat)) (position : Nat) :
    (taken : Nat) → List Char → Except Fault (List (String × String))
  | _, [] => .ok []
  | taken + 1, c :: rest => readAttributes element seen (position + c.utf8Size) taken rest
  | 0, c :: rest =>
    if isSpace c then readAttributes element seen (position + c.utf8Size) 0 rest
    else
      match readAttribute seen position c rest with
      | .error fault => .error (.badAttribute element fault)
      | .ok raw => do
        let entry ← raw.entry element
        let others ← readAttributes element ((raw.key, position) :: seen)
          (position + c.utf8Size) (raw.length - 1) rest
        return entry ++ others

/-- The name of a tag: its content up to the first space. -/
def tagName (content : List Char) : List Char :=
  content.takeWhile fun c => !isSpace c

/-- What a tag says about the element that it begins. -/
structure Tag where
  name : String
  attributes : List (String × String)
  deriving DecidableEq, Repr

/-- The element that a tag begins, still without children. -/
def Tag.element (tag : Tag) : Element :=
  { name := tag.name, attributes := tag.attributes }

/-- Reads a tag. -/
def readTag (content : List Char) : Except Fault Tag := do
  let name := tagName content
  let element := String.ofList (localName name)
  let attributes ← readAttributes element [] (Text.byteSize name) 0 (content.drop name.length)
  return { name := element, attributes := attributes }

end Recordgen.Markup
