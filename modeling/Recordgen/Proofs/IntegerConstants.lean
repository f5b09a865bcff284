import Recordgen.Proofs.DecimalText
import Recordgen.Proofs.LiteralGrammar

/-! # Integers in the generated code

A plain literal of an integer type becomes a cast of its own text (`render_integer`). Two readers
give that text a value: `writtenInteger?` reads the decimal integer that the document writes, in
digits of any script, and `cppInteger?` reads it as the generated code does, where only ASCII digits
count and a leading zero in front of further digits means octal. They agree exactly on ASCII digits
that do not begin with a zero or that are zeros in front of one octal digit
(`integer_value_kept_iff`).
-/

namespace Recordgen.Literal

open Outcome

/-- The value of a decimal digit. Every script has its ten digits in a row, from zero on. -/
def scriptDigit? (c : Char) : Option Nat :=
  (Text.digitRanges.find? fun range => range.1 ≤ c.toNat && c.toNat ≤ range.2).map
    fun range => (c.toNat - range.1) % 10

/-- The number that one or more decimal digits of any script write. -/
def writtenNumber? (digits : List Char) : Option Nat :=
  if digits = [] then none
  else digits.foldlM (fun value c => (scriptDigit? c).map (10 * value + ·)) 0

/-- The number that one or more ASCII digits write in a base. -/
def baseNumber? (base : Nat) (digits : List Char) : Option Nat :=
  if digits ≠ [] ∧ digits.all fun c => c.isDigit && c.toNat - '0'.toNat < base then
    some (Nat.ofDigitChars base digits 0)
  else none

/-- The number that an integer literal of C++ denotes: a leading zero in front of further digits
means octal. -/
def cppNumber? (digits : List Char) : Option Nat :=
  if digits.head? = some '0' ∧ 1 < digits.length then baseNumber? 8 digits
  else baseNumber? 10 digits

/-- The integer that an optional sign and a number stand for. -/
def signed? (number? : List Char → Option Nat) (text : List Char) : Option Int :=
  (number? (dropSign text)).map fun number => if text.head? = some '-' then -number else number

/-- The decimal integer that a document writes. -/
def writtenInteger? (text : String) : Option Int :=
  signed? writtenNumber? text.toList

/-- The integer that a text denotes as an optionally signed integer literal of C++. -/
def cppInteger? (text : String) : Option Int :=
  signed? cppNumber? text.toList

/-- Digits that write the same number in a document and in C++: ASCII digits that do not begin with
a zero, or octal digits of which only the last one may differ from zero. -/
def KeepsValue (digits : List Char) : Prop :=
  digits.all Char.isDigit ∧
    (digits.head? ≠ some '0' ∨
      (digits.all fun c => c.toNat - '0'.toNat < 8) ∧ digits.dropLast.all (· = '0'))

instance (digits : List Char) : Decidable (KeepsValue digits) :=
  inferInstanceAs (Decidable (_ ∧ _))

/-! Digits of scripts. -/

private theorem exists_scriptDigit {c : Char} (isDigit : Text.isDigit c = true) :
    ∃ value, scriptDigit? c = some value := by
  obtain ⟨range, listed, inside⟩ := List.any_eq_true.mp isDigit
  cases found : Text.digitRanges.find? fun range => range.1 ≤ c.toNat && c.toNat ≤ range.2 with
  | none => exact absurd inside (List.find?_eq_none.mp found range listed)
  | some range => exact ⟨_, by rw [scriptDigit?, found, Option.map_some]⟩

/-- The ASCII digits stand first in the table. -/
theorem scriptDigit?_of_isDigit {c : Char} (isDigit : c.isDigit = true) :
    scriptDigit? c = some (c.toNat - '0'.toNat) := by
  obtain ⟨low, high⟩ := Text.toNat_of_isDigit isDigit
  have first : (Text.digitRanges.find? fun range => range.1 ≤ c.toNat && c.toNat ≤ range.2) =
      some ('0'.toNat, '9'.toNat) := by
    rw [Text.digitRanges, List.find?_cons_of_pos]
    · rfl
    · exact Bool.and_eq_true_iff.mpr ⟨decide_eq_true low, decide_eq_true high⟩
  rw [scriptDigit?, first, Option.map_some, Nat.mod_eq_of_lt (Text.digit_lt_ten isDigit)]

private theorem exists_foldlM_scriptDigit {digits : List Char}
    (all : ∀ c ∈ digits, Text.isDigit c = true) (start : Nat) :
    ∃ number, digits.foldlM (fun value c => (scriptDigit? c).map (10 * value + ·)) start =
      some number := by
  induction digits generalizing start with
  | nil => exact ⟨start, rfl⟩
  | cons c digits ih =>
      obtain ⟨here, later⟩ := List.forall_mem_cons.mp all
      obtain ⟨value, found⟩ := exists_scriptDigit here
      obtain ⟨number, rest⟩ := ih later (10 * start + value)
      exact ⟨number, by rw [List.foldlM_cons, found]; exact rest⟩

private theorem foldlM_scriptDigit_of_isDigit {digits : List Char}
    (all : ∀ c ∈ digits, c.isDigit = true) (start : Nat) :
    digits.foldlM (fun value c => (scriptDigit? c).map (10 * value + ·)) start =
      some (Nat.ofDigitChars 10 digits start) := by
  induction digits generalizing start with
  | nil => rfl
  | cons c digits ih =>
      obtain ⟨here, later⟩ := List.forall_mem_cons.mp all
      rw [List.foldlM_cons, scriptDigit?_of_isDigit here, Nat.ofDigitChars_cons, ← ih later]
      rfl

/-! Bases. -/

/-- Once a digit that counts has been read, a further digit makes the numbers differ. -/
theorem ofDigitChars_lt {digits : List Char} (filled : digits ≠ []) {octal decimal : Nat}
    (counts : 0 < decimal) (behind : octal ≤ decimal) :
    Nat.ofDigitChars 8 digits octal < Nat.ofDigitChars 10 digits decimal := by
  induction digits generalizing octal decimal with
  | nil => exact absurd rfl filled
  | cons c digits ih =>
      rw [Nat.ofDigitChars_cons, Nat.ofDigitChars_cons]
      by_cases last : digits = []
      · subst last
        rw [Nat.ofDigitChars_nil, Nat.ofDigitChars_nil]
        omega
      · exact ih last (by omega) (by omega)

/-- Digits write the same number in both bases exactly if only the last one counts. -/
theorem ofDigitChars_eq_iff {digits : List Char} (all : ∀ c ∈ digits, c.isDigit = true) :
    Nat.ofDigitChars 8 digits 0 = Nat.ofDigitChars 10 digits 0 ↔
      ∀ c ∈ digits.dropLast, c = '0' := by
  induction digits with
  | nil => simp
  | cons c digits ih =>
      obtain ⟨here, later⟩ := List.forall_mem_cons.mp all
      by_cases last : digits = []
      · subst last
        simp [Nat.ofDigitChars_cons]
      · rw [List.dropLast_cons_of_ne_nil last, List.forall_mem_cons, ← ih later,
          Nat.ofDigitChars_cons, Nat.ofDigitChars_cons, Nat.mul_zero, Nat.zero_add]
        by_cases zero : c = '0'
        · subst zero
          simp
        · have differ := ofDigitChars_lt last (Text.digit_pos here zero) (Nat.le_refl _)
          exact iff_of_false (Nat.ne_of_lt differ) fun both => zero both.1

/-! C++ literals. -/

private theorem baseNumber?_eq_some_iff {base number : Nat} {digits : List Char} :
    baseNumber? base digits = some number ↔ digits ≠ [] ∧
      (∀ c ∈ digits, c.isDigit = true ∧ c.toNat - '0'.toNat < base) ∧
      Nat.ofDigitChars base digits 0 = number := by
  simp only [baseNumber?, Option.ite_none_right_eq_some, Option.some.injEq, and_assoc,
    List.all_eq_true, Bool.and_eq_true, decide_eq_true_eq]

/-- A single zero means the same in both bases. -/
theorem cppNumber?_of_zero {digits : List Char} (zero : digits.head? = some '0') :
    cppNumber? digits = baseNumber? 8 digits := by
  by_cases long : 1 < digits.length
  · exact if_pos ⟨zero, long⟩
  · obtain ⟨rest, rfl⟩ := List.head?_eq_some_iff.mp zero
    obtain rfl : rest = [] := List.length_eq_zero_iff.mp (by simpa using long)
    decide

private theorem cppNumber?_of_not_zero {digits : List Char} (notZero : digits.head? ≠ some '0') :
    cppNumber? digits = baseNumber? 10 digits :=
  if_neg fun both => notZero both.1

private theorem isDigit_of_cppNumber? {digits : List Char} {number : Nat}
    (found : cppNumber? digits = some number) : ∀ c ∈ digits, c.isDigit = true := by
  rw [cppNumber?] at found
  split at found <;>
    exact fun c inside => ((baseNumber?_eq_some_iff.mp found).2.1 c inside).1

/-- Digits write a number in a document, and denote the same number in C++ exactly if they keep
their value. -/
theorem exists_number_kept_iff {text : List Char} (member : text ∈ digits) :
    ∃ number, writtenNumber? text = some number ∧
      (cppNumber? text = some number ↔ KeepsValue text) := by
  obtain ⟨filled, all⟩ := mem_digits_iff.mp member
  rw [writtenNumber?, if_neg filled]
  by_cases ascii : ∀ c ∈ text, c.isDigit = true
  · refine ⟨_, foldlM_scriptDigit_of_isDigit ascii 0, ?_⟩
    simp only [KeepsValue, List.all_eq_true, decide_eq_true_eq, and_iff_right ascii]
    by_cases zero : text.head? = some '0'
    · rw [cppNumber?_of_zero zero, baseNumber?_eq_some_iff, and_iff_right filled,
        ofDigitChars_eq_iff ascii, or_iff_right (not_not.mpr zero), forall₂_and,
        and_iff_right ascii]
    · have small : ∀ c ∈ text, c.isDigit = true ∧ c.toNat - '0'.toNat < 10 := fun c inside =>
        ⟨ascii c inside, Text.digit_lt_ten (ascii c inside)⟩
      rw [cppNumber?_of_not_zero zero]
      exact iff_of_true (baseNumber?_eq_some_iff.mpr ⟨filled, small, rfl⟩) (.inl zero)
  · obtain ⟨number, written⟩ := exists_foldlM_scriptDigit all 0
    exact ⟨number, written, iff_of_false (fun found => ascii (isDigit_of_cppNumber? found))
      fun kept => ascii (List.all_eq_true.mp kept.1)⟩

/-- A sign does not change which numbers are equal. -/
theorem signed?_eq_some_iff {number? : List Char → Option Nat} {text : List Char} {number : Nat} :
    signed? number? text = some (if text.head? = some '-' then -(number : Int) else number) ↔
      number? (dropSign text) = some number := by
  rw [signed?]
  cases number? (dropSign text) with
  | none => simp
  | some other =>
      by_cases negative : text.head? = some '-' <;> simp [negative, Int.natCast_inj]

/-- A plain text of an integer type is an optional sign and digits. -/
theorem dropSign_mem_digits {type : LiteralType} (integer : type.isInteger = true)
    {text : List Char} (lexical : text ∈ lexicon type) : dropSign text ∈ digits := by
  have signed : text ∈ (1 + sign) * digits := by
    cases type with
    | bool | char | date | decimal | string => cases integer
    | i16 | i32 | i64 => exact lexical
    | enum | i16u | i32u | i64u =>
        obtain ⟨lead, optional, behind, member, rfl⟩ := Language.mem_mul.mp lexical
        refine Language.append_mem_mul (optional.imp id ?_) member
        rintro ⟨c, rfl, rfl⟩
        exact ⟨'+', .inl rfl, rfl⟩
  rw [← isDigits_eq_true_iff, isDigits_dropSign_iff]
  exact signed

/-- An integer is written as a cast of its text. -/
theorem render_integer {type : LiteralType} {cast : Option LiteralType}
    (integer : (cast.getD type).isInteger = true) (config raw value : String) :
    render config ⟨type, raw, .plain value cast⟩ =
      "static_cast<" ++ (cast.getD type).name ++ ">(" ++ value ++ ")" := by
  change constant (cast.getD type) value = _
  cases target : cast.getD type <;> first | rfl | (rw [target] at integer; cases integer)

/-- **Integers.** A plain literal of an integer type is rendered as a cast of the text that it
writes. That text writes a decimal integer, and denotes it in C++ exactly if its digits keep their
value. -/
theorem integer_value_kept_iff {type : LiteralType} {raw value : String} {cast : Option LiteralType}
    (parsed : Form.parse type raw = .ok (.plain value cast))
    (integer : (cast.getD type).isInteger = true) :
    raw = Form.printCast cast ++ value ∧
      (∀ config, render config ⟨type, raw, .plain value cast⟩ =
        "static_cast<" ++ (cast.getD type).name ++ ">(" ++ value ++ ")") ∧
      ∃ number, writtenInteger? value = some number ∧
        (cppInteger? value = some number ↔ KeepsValue (dropSign value.toList)) := by
  have reads := Reads.of_parse parsed
  refine ⟨reads.print_eq.symm, fun config => render_integer integer config raw value, ?_⟩
  cases reads with
  | plain unshaped body lexical =>
      obtain ⟨number, written, kept⟩ :=
        exists_number_kept_iff (dropSign_mem_digits integer lexical)
      exact ⟨_, signed?_eq_some_iff.mpr written, signed?_eq_some_iff.trans kept⟩

/-- A literal with a sign and a cast keeps its value. -/
theorem signed_literal_kept :
    Form.parse .i64 "(I16)-42" = .ok (.plain "-42" (some .i16)) ∧
      render "config" ⟨.i64, "(I16)-42", .plain "-42" (some .i16)⟩ = "static_cast<I16>(-42)" ∧
      ∃ number, writtenInteger? "-42" = some number ∧ cppInteger? "-42" = some number := by
  have parsed : Form.parse .i64 "(I16)-42" = .ok (.plain "-42" (some .i16)) := by decide +kernel
  obtain ⟨-, rendered, number, written, kept⟩ := integer_value_kept_iff parsed rfl
  exact ⟨parsed, rendered "config", number, written, kept.mpr (by decide)⟩

/-- The text `010` writes ten and denotes eight. -/
theorem leading_zero_denotes_octal :
    Form.parse .i32 "010" = .ok (.plain "010" none) ∧
      render "config" ⟨.i32, "010", .plain "010" none⟩ = "static_cast<I32>(010)" ∧
      writtenInteger? "010" = some 10 ∧ cppInteger? "010" = some 8 :=
  ⟨by decide +kernel, rfl, by decide +kernel, by decide +kernel⟩

end Recordgen.Literal
