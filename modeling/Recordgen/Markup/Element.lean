import Recordgen.Error
import Recordgen.Text.Blank

/-! # Element trees

A document is a tree of elements. Of each element its local name, its attributes in order and its
children in order are kept; text between the elements is not.
-/

namespace Recordgen.Markup

/-- An element with everything inside it. -/
structure Element where
  name : String := ""
  attributes : List (String × String) := []
  children : List Element := []
  deriving Repr, Inhabited

namespace Element

/-- The value of the first attribute with the given name. -/
def attribute? (element : Element) (key : String) : Option String :=
  element.attributes.lookup key

/-- The trimmed value of an attribute that must be present and not blank. `place` tells messages
where the element stands. -/
def required (element : Element) (key place : String) : Except CompileError String :=
  match element.attribute? key with
  | some value =>
    let trimmed := Text.trim value
    if trimmed = "" then .error (.markup (.blankAttribute key element.name place)) else .ok trimmed
  | none => .error (.markup (.missingAttribute key element.name place))

/-- The first child with the given name. -/
def child? (element : Element) (name : String) : Option Element :=
  element.children.find? fun child => child.name == name

/-- The children with the given name, in order. -/
def childrenNamed (element : Element) (name : String) : List Element :=
  element.children.filter fun child => child.name == name

end Element

end Recordgen.Markup
