/-! # Literal types

The twelve scalar types that a literal, a field element or a type parameter can have. `name` is the
spelling in a document and in the generated code alike, and `ofName?` reads it back.
-/

namespace Recordgen

/-- A scalar type of the generated code. -/
inductive LiteralType where
  | bool
  | char
  | date
  | decimal
  | enum
  | i16
  | i32
  | i64
  | i16u
  | i32u
  | i64u
  | string
  deriving DecidableEq, Repr, Inhabited

namespace LiteralType

/-- All types, in the order in which messages list them. -/
def all : List LiteralType :=
  [bool, char, date, decimal, enum, i16, i32, i64, i16u, i32u, i64u, string]

/-- The spelling of a type. -/
def name : LiteralType → String
  | bool => "Bool"
  | char => "Char"
  | date => "Date"
  | decimal => "Decimal"
  | enum => "Enum"
  | i16 => "I16"
  | i32 => "I32"
  | i64 => "I64"
  | i16u => "I16u"
  | i32u => "I32u"
  | i64u => "I64u"
  | string => "String"

/-- The type with the given spelling. -/
def ofName? (text : String) : Option LiteralType :=
  all.find? fun type => type.name == text

/-- Whether the values are whole numbers; an enumeration value is one. -/
def isInteger : LiteralType → Bool
  | i16 | i32 | i64 | i16u | i32u | i64u | enum => true
  | _ => false

/-- Whether the values are whole numbers without a sign. -/
def isUnsigned : LiteralType → Bool
  | i16u | i32u | i64u | enum => true
  | _ => false

theorem mem_all (type : LiteralType) : type ∈ all := by
  cases type <;> decide

@[simp]
theorem ofName?_name (type : LiteralType) : ofName? type.name = some type := by
  cases type <;> rfl

/-- Only the name of a type is read as that type. -/
theorem ofName?_eq_some_iff {text : String} {type : LiteralType} :
    ofName? text = some type ↔ text = type.name := by
  constructor
  · intro found
    have named := List.find?_some (p := fun type => name type == text) found
    exact (beq_iff_eq.mp named).symm
  · rintro rfl
    exact ofName?_name type

end LiteralType

end Recordgen
