import Recordgen.Literal.Form
import Recordgen.Text.Quoted

/-! # Literals in the generated code

A parameter is looked up in the configuration, which is designated by an expression that depends on
where the literal stands. A plain value becomes a constant of its type.
-/

namespace Recordgen.Literal

/-- The look-up of a parameter; without a cast, its value has the declared type of the literal. -/
def parameterLookup (config : String) (type : LiteralType) (token : ParameterToken) : String :=
  s!"{config}.parameter<{(token.cast.getD type).name}>(\"{token.name}\")"

/-- The constant of a type that a plain value denotes. -/
def constant (type : LiteralType) (value : String) : String :=
  match type with
  | .string => Text.Quoted.string value
  | .char => Text.Quoted.character value
  | .date => s!"Date({Text.Quoted.string value})"
  | .bool => if value = "true" ∨ value = "1" then "true" else "false"
  | type => s!"static_cast<{type.name}>({value})"

/-- The expression for a literal, where `config` designates the configuration. -/
def render (config : String) (literal : Literal) : String :=
  match literal.form with
  | .parameter name cast => parameterLookup config literal.type ⟨name, cast⟩
  | .expression inner =>
    let expanded := expandTokens (parameterLookup config literal.type) inner
    s!"static_cast<{literal.type.name}>({expanded})"
  | .null => s!"nullValue<{literal.type.name}>()"
  | .plain value cast => constant (cast.getD literal.type) value

end Recordgen.Literal
