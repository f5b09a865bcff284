import Recordgen.FieldType
import Recordgen.Proofs.DecimalText
import Recordgen.Proofs.TokenScanning

/-! # The form of field types

A field type is spelled as the name of a literal type, alone or in front of a size between brackets.
The size is a run of ASCII digits, zeros in front included, for a positive number of 64 bits
(`FieldType.IsSpelled`). Reading accepts exactly these spellings, and a field type is read back from
what it displays exactly if its size is one that can be spelled (`FieldType.parse_spelling`). A run
of digits of another script, or a number that is too large, leaves no vector behind: the whole text
is then looked up as a literal type, and no literal type has a bracket in its name.
-/

namespace Recordgen

open Outcome

namespace Text

/-- A run of ASCII digits for a number of 64 bits. -/
structure IsSize (digits : List Char) (size : Nat) : Prop where
  filled : digits ≠ []
  ascii : ∀ c ∈ digits, '0' ≤ c ∧ c ≤ '9'
  value : Nat.ofDigitChars 10 digits 0 = size
  bounded : size < 2 ^ 64

private theorem isAsciiDigit_iff {c : Char} : c.isDigit = true ↔ '0' ≤ c ∧ c ≤ '9' := by
  simp [Char.isDigit, Char.le_def]

private theorem readBounded?_maxUnsigned {digits : List Char} {size : Nat} :
    readBounded? maxUnsigned digits = some size ↔ IsSize digits size := by
  have limit : size ≤ maxUnsigned ↔ size < 2 ^ 64 := by
    rw [maxUnsigned]
    omega
  simp only [readBounded?, Option.filter_eq_some_iff, readDecimal?_eq_some_iff, isAsciiDigit_iff,
    decide_eq_true_eq, limit]
  constructor
  · rintro ⟨⟨filled, ascii, value⟩, bounded⟩
    exact ⟨filled, ascii, value, bounded⟩
  · rintro ⟨filled, ascii, value, bounded⟩
    exact ⟨⟨filled, ascii, value⟩, bounded⟩

/-- The decimal text of a number is a size, unless the number is too large. -/
theorem isSize_toDigits {size : Nat} (bounded : size < 2 ^ 64) :
    IsSize (Nat.toDigits 10 size) size where
  filled := Nat.toDigits_ne_nil
  ascii _ inside := isAsciiDigit_iff.mp (Nat.isDigit_of_mem_toDigits (by decide) (by decide) inside)
  value := Nat.ofDigitChars_ten_toDigits
  bounded := bounded

end Text

namespace LiteralType

/-- Only the name of a type is read as that type. -/
theorem parse_eq_ok_iff {text : String} {type : LiteralType} :
    parse text = .ok type ↔ text = type.name := by
  rw [← ofName?_eq_some_iff, parse]
  cases ofName? text <;> simp

private theorem isWord_of_mem_name {type : LiteralType} {c : Char} (inside : c ∈ type.name.toList) :
    Text.isWord c = true := by
  have word : type.name.toList.all Text.isWord = true := by
    cases type <;> decide +kernel
  exact List.all_eq_true.mp word c inside

private theorem name_ne_empty (type : LiteralType) : type.name ≠ "" := by
  cases type <;> decide

end LiteralType

namespace FieldType

variable {text : String} {type : FieldType}

/-- A word with digits between brackets behind it. -/
def bracketed (word digits : List Char) : List Char :=
  word ++ '[' :: (digits ++ [']'])

/-- What a field type is written as: the name of its literal type, followed by its size between
brackets if it is a vector. -/
def IsSpelled (text : List Char) : FieldType → Prop
  | scalar element => text = element.name.toList
  | vector element size =>
    0 < size ∧ ∃ digits, Text.IsSize digits size ∧ text = bracketed element.name.toList digits

private theorem isWord_bracket : Text.isWord '[' = false := by
  decide +kernel

/-- A text is cut at a bracket exactly if a word stands in front of it and a size behind. -/
theorem vectorParts?_eq_some_iff {word : String} {size : Nat} :
    vectorParts? text = some (word, size) ↔
      word ≠ "" ∧ (∀ c ∈ word.toList, Text.isWord c = true) ∧
        ∃ digits, Text.IsSize digits size ∧ text.toList = bracketed word.toList digits := by
  constructor
  · intro cut
    simp only [vectorParts?] at cut
    split at cut
    · rename_i rest opened
      simp only [Option.ite_none_right_eq_some, Option.map_eq_some_iff, Prod.mk.injEq] at cut
      obtain ⟨⟨filled, closed⟩, number, read, rfl, rfl⟩ := cut
      refine ⟨by simpa using filled, fun c inside => ?_, _, Text.readBounded?_maxUnsigned.mp read,
        ?_⟩
      · rw [String.toList_ofList] at inside
        exact List.mem_takeWhile_imp inside
      · rw [String.toList_ofList, bracketed, ← closed, List.takeWhile_append_dropWhile, ← opened,
          List.takeWhile_append_dropWhile]
    · cases cut
  · rintro ⟨filled, inWord, digits, written, spelled⟩
    have digitsEnd : Text.isDigit ']' = false := by decide +kernel
    have all : ∀ c ∈ digits, Text.isDigit c = true := fun c inside =>
      Text.isDigit_of_ascii (Text.isAsciiDigit_iff.mpr (written.ascii c inside))
    simp only [vectorParts?, spelled, bracketed, Text.takeWhile_run inWord isWord_bracket,
      Text.dropWhile_run inWord isWord_bracket, Text.takeWhile_run all digitsEnd,
      Text.dropWhile_run all digitsEnd, Text.readBounded?_maxUnsigned.mpr written]
    simp [filled]

private theorem vectorParts?_bracketed {element : LiteralType} {digits : List Char} {size : Nat}
    (written : Text.IsSize digits size)
    (spelled : text.toList = bracketed element.name.toList digits) :
    vectorParts? text = some (element.name, size) :=
  vectorParts?_eq_some_iff.mpr
    ⟨element.name_ne_empty, fun _ => LiteralType.isWord_of_mem_name, digits, written, spelled⟩

/-- No literal type has a bracket in its name. -/
theorem vectorParts?_name (element : LiteralType) : vectorParts? element.name = none := by
  rw [Option.eq_none_iff_forall_ne_some]
  rintro ⟨word, size⟩ cut
  obtain ⟨-, -, digits, -, spelled⟩ := vectorParts?_eq_some_iff.mp cut
  have inside : '[' ∈ element.name.toList := by
    simp [spelled, bracketed]
  exact Bool.false_ne_true (isWord_bracket.symm.trans (LiteralType.isWord_of_mem_name inside))

/-- A type is read from its spellings, and from no other text. -/
theorem parse_eq_ok_iff : parse text = .ok type ↔ type.IsSpelled text.toList := by
  rw [parse]
  cases cut : vectorParts? text with
  | none =>
      -- The whole text has to be a name, so no spelling of a vector gets here.
      simp only [map_eq_ok_iff, LiteralType.parse_eq_ok_iff]
      cases type with
      | scalar element => simp [IsSpelled, String.toList_inj]
      | vector element size =>
          constructor
          · rintro ⟨found, -, same⟩
            cases same
          · rintro ⟨-, digits, written, spelled⟩
            rw [vectorParts?_bracketed written spelled] at cut
            cases cut
  | some parts =>
      obtain ⟨word, size⟩ := parts
      simp only [bind_eq_ok_iff, LiteralType.parse_eq_ok_iff]
      constructor
      · rintro ⟨element, rfl, sized⟩
        split at sized
        · cases sized
        · rename_i positive
          obtain rfl := pure_eq_ok_iff.mp sized
          exact ⟨Nat.pos_of_ne_zero positive, (vectorParts?_eq_some_iff.mp cut).2.2⟩
      · intro spelled
        cases type with
        | scalar element =>
            rw [String.toList_inj.mp spelled, vectorParts?_name] at cut
            cases cut
        | vector element number =>
            obtain ⟨positive, digits, written, bracketed⟩ := spelled
            rw [vectorParts?_bracketed written bracketed] at cut
            obtain ⟨rfl, rfl⟩ := Prod.mk.inj (Option.some.inj cut)
            exact ⟨element, rfl, if_neg (Nat.ne_of_gt positive)⟩

private theorem toList_display_vector (element : LiteralType) (size : Nat) :
    (display (vector element size)).toList =
      bracketed element.name.toList (Nat.toDigits 10 size) := by
  simp [display, bracketed, toString, Nat.toList_repr]

private theorem isSpelled_display (sized : ∀ size ∈ type.size?, 0 < size ∧ size < 2 ^ 64) :
    type.IsSpelled type.display.toList := by
  cases type with
  | scalar element => rfl
  | vector element size =>
      obtain ⟨positive, bounded⟩ := sized size rfl
      exact ⟨positive, _, Text.isSize_toDigits bounded, toList_display_vector element size⟩

/-- A size that is spelled is positive and fits in 64 bits. -/
theorem IsSpelled.sized {text : List Char} (spelled : type.IsSpelled text) :
    ∀ size ∈ type.size?, 0 < size ∧ size < 2 ^ 64 := by
  cases type with
  | scalar element => simp [size?]
  | vector element size =>
      rintro _ ⟨⟩
      obtain ⟨positive, digits, written, -⟩ := spelled
      exact ⟨positive, written.bounded⟩

/-- **Field types.** A text is read as a field type exactly if it spells that type: the name of a
literal type, or such a name and, between brackets, ASCII digits for a number from 1 to `2 ^ 64 - 1`.
A field type is read back from its display exactly if its size, when it has one, is in that range. -/
theorem parse_spelling (text : String) (type : FieldType) :
    (parse text = .ok type ↔ type.IsSpelled text.toList) ∧
    (parse type.display = .ok type ↔ ∀ size ∈ type.size?, 0 < size ∧ size < 2 ^ 64) := by
  refine ⟨parse_eq_ok_iff, ?_⟩
  rw [parse_eq_ok_iff]
  exact ⟨IsSpelled.sized, isSpelled_display⟩

example : parse "I16u[007]" = .ok (vector .i16u 7) ∧
    parse "Date[\u0663]" = .error (.unsupportedType "Date[\u0663]" "literal"
      (LiteralType.all.map LiteralType.name)) := by
  decide +kernel

end FieldType

end Recordgen
