import Recordgen.Error
import Recordgen.Text.Split
import Recordgen.Text.Word

/-! # Compile options -/

namespace Recordgen

/-- What a compile run is asked to do. -/
structure CompileOptions where
  /-- The prototype document. -/
  specification : String := "prototype.xml"
  /-- The C++ namespace around every generated declaration. -/
  targetNamespace : String := "Generated"
  /-- The root directory of the generated sources. -/
  output : String := "src/cpp"
  deriving DecidableEq, Repr

/-- Whether a text is an identifier: an ASCII letter or underscore, then word characters. -/
def isScopeName : List Char → Bool
  | [] => false
  | c :: rest => (c.isAlpha || c = '_') && rest.all Text.isWord

/-- Whether a text is a list of identifiers divided by `::`. -/
def isNamespace (text : String) : Bool :=
  (Text.splitScopes text.toList).all isScopeName

namespace CompileOptions

/-- Refuses options that cannot be honoured; the namespace is checked first. -/
def validate (options : CompileOptions) : Except CompileError Unit :=
  if !isNamespace options.targetNamespace then
    .error (.options (.badNamespace options.targetNamespace))
  else if options.output = "" then .error (.options .emptyOutput)
  else .ok ()

end CompileOptions

end Recordgen
