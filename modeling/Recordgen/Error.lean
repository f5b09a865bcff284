import Recordgen.Error.Markup
import Recordgen.Error.Document
import Recordgen.Error.Linking
import Recordgen.Error.Rendering
import Recordgen.Error.Storage

/-! # Compile errors

Everything that ends a compile run. An error is a cause; `message` is the only place that puts the
causes into words.
-/

namespace Recordgen

/-- Which kind of path a text is read as. -/
inductive PathKind where
  | field
  | reference
  deriving DecidableEq, Repr

/-- The wording of a path kind. -/
def PathKind.name : PathKind → String
  | field => "field"
  | reference => "reference"

/-- Why a specification is malformed. -/
inductive Malformed where
  | markup (fault : Markup.Fault)
  | document (fault : DocumentFault)
  | linking (fault : LinkFault)
  | rendering (fault : RenderFault)
  | typeString (text : String)
  | emptySegment (kind : PathKind) (path : String)
  | referenceForm (path : String)
  | emptyVector (text : String)
  | sizeOutOfRange (size text : String)
  deriving DecidableEq, Repr

/-- The wording of a malformation. -/
def Malformed.message : Malformed → String
  | markup fault => fault.message
  | document fault => fault.message
  | linking fault => fault.message
  | rendering fault => fault.message
  | typeString text => s!"'{text}' is not a well-formed type string"
  | emptySegment kind path => s!"{kind.name} path '{path}' contains an empty segment"
  | referenceForm path => s!"reference path '{path}' must have the form record:reference"
  | emptyVector text => s!"vector type '{text}' must have a positive size"
  | sizeOutOfRange size text => s!"size parameter '{size}' of '{text}' is out of range"

/-- What ends a compile run. -/
inductive CompileError where
  /-- A required part is missing, empty or not well formed. -/
  | malformed (cause : Malformed)
  /-- An argument that takes one value is given twice. -/
  | duplicateArgument (key place : String)
  /-- No candidate has the given type text. -/
  | unsupportedType (text context : String) (expected : List String)
  /-- A name denotes nothing; `segment` is the part of `path` that cannot be followed. -/
  | unresolved (kind : LinkKind) (path segment place : String)
  /-- A field cannot have the setter that is asked of it. -/
  | setterTarget (field place : String) (fault : SetterFault)
  | storage (fault : StorageFault)
  | options (fault : OptionFault)
  deriving DecidableEq, Repr

/-- The wording of a compile error. -/
def CompileError.message : CompileError → String
  | malformed cause => s!"malformed specification: {cause.message}"
  | duplicateArgument key place => s!"duplicate argument '{key}' in {place}"
  | unsupportedType text context expected =>
    s!"unsupported type '{text}' for {context}; expected one of: " ++ ", ".intercalate expected
  | unresolved kind path segment place =>
    s!"unresolved {kind.name} reference '{path}' in {place}: '{segment}' not found"
  | setterTarget field place fault =>
    s!"setter target error for field '{field}' in {place}: {fault.message}"
  | storage fault => s!"io error: {fault.message}"
  | options fault => s!"config error: {fault.message}"

namespace CompileError

/-- A fault in the markup, as a compile error. -/
def markup (fault : Markup.Fault) : CompileError := malformed (.markup fault)

/-- A fault in the contents of the document, as a compile error. -/
def document (fault : DocumentFault) : CompileError := malformed (.document fault)

/-- A fault around the links, as a compile error. -/
def linking (fault : LinkFault) : CompileError := malformed (.linking fault)

/-- A fault found while rendering, as a compile error. -/
def rendering (fault : RenderFault) : CompileError := malformed (.rendering fault)

end CompileError

end Recordgen
