/-! # Source text in steps

Generated code is described as a list of steps, which write lines and change the indentation.
`render` gives the text. An empty line is never indented, and the indentation does not go below
zero.
-/

namespace Recordgen

/-- One step in writing a source text. -/
inductive Step where
  | line (text : String)
  | blank
  /-- Writes a line and indents what follows. -/
  | opening (text : String)
  /-- Ends the indentation and writes a line. -/
  | closing (text : String)
  | indent
  | dedent
  /-- Opens a namespace; its contents are not indented. -/
  | enterNamespace (name : String)
  | leaveNamespace (name : String)
  deriving DecidableEq, Repr

namespace Step

/-- A line at the given level of indentation. -/
def lineAt (level : Nat) (text : String) : String :=
  if text = "" then "\n" else String.ofList (List.replicate (4 * level) ' ') ++ text ++ "\n"

/-- The level of indentation after a step. -/
def levelAfter (level : Nat) : Step → Nat
  | opening _ | indent => level + 1
  | closing _ | dedent => level - 1
  | line _ | blank | enterNamespace _ | leaveNamespace _ => level

/-- What a step writes. -/
def text (level : Nat) : Step → String
  | line text => lineAt level text
  | blank => "\n"
  | opening text => lineAt level text
  | closing text => lineAt (level - 1) text
  | indent | dedent => ""
  | enterNamespace name => lineAt level s!"namespace {name} \x7b"
  | leaveNamespace name => lineAt level s!"\x7d // namespace {name}"

/-- What each of a list of steps writes, from the given level on. -/
def texts : (level : Nat) → List Step → List String
  | _, [] => []
  | level, step :: rest => step.text level :: texts (step.levelAfter level) rest

/-- The text that a list of steps writes. -/
def render (steps : List Step) : String :=
  String.join (texts 0 steps)

/-! The shapes that generated classes are made of. -/

/-- Steps between braces. -/
def braces (body : List Step) : List Step :=
  opening "\x7b" :: body ++ [closing "\x7d"]

/-- Steps between braces that end a declaration. -/
def declarationBraces (body : List Step) : List Step :=
  opening "\x7b" :: body ++ [closing "\x7d;"]

/-- Steps that are indented once more. -/
def indented (body : List Step) : List Step :=
  indent :: body ++ [dedent]

/-- The label of a group of members, and a blank line. -/
def accessLabel (label : String) : List Step :=
  [dedent, line label, indent, blank]

/-- A function with a body. -/
def function (signature : String) (body : List Step) : List Step :=
  line signature :: braces body

/-- Lines divided by commas. -/
def commaLines : List String → List Step
  | [] => []
  | [last] => [line last]
  | text :: rest => line (text ++ ",") :: commaLines rest

/-- A constructor with initialisers and an empty body. -/
def constructor (signature : String) (initialisers : List Step) : List Step :=
  line signature :: indented initialisers ++ braces []

/-- A virtual destructor with an empty body. -/
def destructor (className : String) : List Step :=
  function s!"virtual ~{className}()" []

end Step

end Recordgen
