import Recordgen.Markup.Element
import Recordgen.Markup.Reference

/-! # Writing a tree

`Element.print` writes an element tree as a document, with every attribute value in double quotes
and an element without children as an empty one.
-/

namespace Recordgen.Markup

/-- Writes an attribute, with a space in front. -/
def printAttribute : String × String → List Char
  | (key, value) => ' ' :: key.toList ++ '=' :: '"' :: escape value.toList ++ ['"']

/-- Writes a name and its attributes. -/
def printTag (name : String) (attributes : List (String × String)) : List Char :=
  name.toList ++ attributes.flatMap printAttribute

mutual

/-- Writes a tree. -/
def Element.print : Element → List Char
  | ⟨name, attributes, []⟩ => '<' :: printTag name attributes ++ ['/', '>']
  | ⟨name, attributes, child :: children⟩ =>
    '<' :: printTag name attributes ++ '>' :: printAll (child :: children) ++
      '<' :: '/' :: name.toList ++ ['>']

/-- Writes several trees, one after the other. -/
def printAll : List Element → List Char
  | [] => []
  | element :: rest => element.print ++ printAll rest

end

end Recordgen.Markup
