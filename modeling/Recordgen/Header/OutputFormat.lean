import Recordgen.Header.Basic
import Recordgen.Literal.Rendering

/-! # Writing records

A record writes itself in the output format of its sequence. Records without an output format, or
with the empty one, write nothing.
-/

namespace Recordgen

/-- The options of the format that writes values with a delimiter between them. -/
structure DelimitedFormat where
  delimiter : String
  quoted : String
  deriving DecidableEq, Repr

namespace DelimitedFormat

/-- An option of a format. It is fixed when the record is compiled, so it must be a constant. -/
def option (format : Component .resolved) (key : String) : Except CompileError String :=
  match (format.argument? key).bind Argument.literal? with
  | none => .error (.rendering (.noArgument format.describe key))
  | some literal =>
    if literal.form.isPlain then .ok (Literal.render "config" literal)
    else .error (.rendering (.notConstant key format.describe literal.raw))

/-- The options that a component gives. -/
def ofComponent (format : Component .resolved) : Except CompileError DelimitedFormat := do
  return ⟨← option format "delimiter", ← option format "quoted"⟩

/-- The call that gives the value to write; an enumeration is written as a text. -/
def valueCall (field : Field) : String :=
  if field.type.isEnum then s!"{field.accessor}EnumValue()" else s!"{field.accessor}()"

/-- The steps that write fields, with delimiters between them. -/
def writeFields (format : DelimitedFormat) : List Field → List Step
  | [] => []
  | [last] => [.line s!"out.write({valueCall last}, {format.quoted});"]
  | field :: rest =>
    .line s!"out.write({valueCall field}, {format.quoted});" ::
      .line s!"out.write({format.delimiter});" :: format.writeFields rest

end DelimitedFormat

namespace RecordContext

/-- The delimited format of a sequence, if that is its output format. -/
def delimitedFormat? (context : RecordContext) :
    Except CompileError (Option DelimitedFormat) :=
  match (context.sequence.outputFormat.map context.spec.component).filter
      fun format => format.kind == .csvOutputFormat with
  | some format => some <$> DelimitedFormat.ofComponent format
  | none => .ok none

/-- The body of the function that writes a record. -/
def writerBody (context : RecordContext) : Option DelimitedFormat → List Step
  | some format => format.writeFields context.fields ++ [.line "out.write('\\n');"]
  | none => []

/-- The function that writes a record. -/
def writer (context : RecordContext) : Except CompileError (List Step) := do
  return Step.function "void write(OutputCollector& out) const"
    (context.writerBody (← context.delimitedFormat?))

end RecordContext

end Recordgen
