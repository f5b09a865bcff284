import Recordgen.LiteralType

/-! # Why a text is not a literal -/

namespace Recordgen

/-- Why a literal or an expression is refused. -/
inductive LiteralFault where
  /-- A parameter token casts to something that is no literal type. -/
  | unknownCast (cast : String)
  /-- An expression without a parameter token. -/
  | noToken (expression : String)
  /-- A plain text outside the lexical grammar of its type. -/
  | notOfType (value : String) (type : LiteralType)
  deriving DecidableEq, Repr

/-- The wording of a literal fault. -/
def LiteralFault.message : LiteralFault → String
  | unknownCast cast => s!"unknown cast type '{cast}'"
  | noToken expression => s!"expression '{expression}' must contain at least one parameter token"
  | notOfType value type => s!"'{value}' is not a valid {type.name} literal"

end Recordgen
