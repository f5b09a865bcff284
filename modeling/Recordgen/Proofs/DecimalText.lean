import Mathlib.Data.List.Induction
import Recordgen.Text.Decimal
import Recordgen.Text.Digit

/-! # Decimal numbers and their texts

The reader of decimal numbers gives the value of a run of ASCII digits (`readDecimal?_eq_some_iff`).
A run that does not begin with a zero is the text of its own value (`toDigits_ofDigitChars`), and
the text of a positive number is such a run (`head?_toDigits`).
-/

namespace Recordgen.Text

variable {digits : List Char} {number : Nat}

section Digit

variable {c : Char} (isDigit : c.isDigit = true)

include isDigit

theorem toNat_of_isDigit : '0'.toNat ≤ c.toNat ∧ c.toNat ≤ '9'.toNat := by
  simp only [Char.isDigit, Bool.and_eq_true, decide_eq_true_eq] at isDigit
  exact isDigit

theorem isDigit_of_ascii : Text.isDigit c = true := by
  obtain ⟨low, high⟩ := toNat_of_isDigit isDigit
  exact List.any_eq_true.mpr ⟨('0'.toNat, '9'.toNat), List.mem_cons_self,
    Bool.and_eq_true_iff.mpr ⟨decide_eq_true low, decide_eq_true high⟩⟩

theorem digit_lt_ten : c.toNat - '0'.toNat < 10 := by
  have bounds := toNat_of_isDigit isDigit
  simp only [Char.reduceToNat] at bounds ⊢
  omega

theorem digit_pos (notZero : c ≠ '0') : 0 < c.toNat - '0'.toNat := by
  have bounds := toNat_of_isDigit isDigit
  have different : c.toNat ≠ '0'.toNat := fun same => notZero (Char.toNat_inj.mp same)
  omega

private theorem digitChar_digit : (c.toNat - '0'.toNat).digitChar = c := by
  have bounds := toNat_of_isDigit isDigit
  apply Char.toNat_inj.mp
  rw [Nat.toNat_digitChar_of_lt_ten (digit_lt_ten isDigit)]
  simp only [Char.reduceToNat] at bounds ⊢
  omega

end Digit

private theorem readDigits?_eq_some_iff {value : Nat} :
    readDigits? value digits = some number ↔
      (∀ c ∈ digits, c.isDigit = true) ∧ Nat.ofDigitChars 10 digits value = number := by
  induction digits generalizing value with
  | nil => simp [readDigits?]
  | cons c digits ih =>
      rw [readDigits?, Option.bind_eq_some_iff, List.forall_mem_cons, Nat.ofDigitChars_cons]
      by_cases isDigit : c.isDigit = true
      · simp [digitValue?, isDigit, ih]
      · simp [digitValue?, isDigit]

/-- A number is read from digits, and from nothing else. -/
theorem readDecimal?_eq_some_iff :
    readDecimal? digits = some number ↔
      digits ≠ [] ∧ (∀ c ∈ digits, c.isDigit = true) ∧ Nat.ofDigitChars 10 digits 0 = number := by
  by_cases filled : digits = []
  · subst filled
    simp [readDecimal?]
  · rw [readDecimal?, readDigits?_eq_some_iff, and_iff_right filled]
    exact filled

/-- A number whose digits do not begin with a zero is positive. -/
theorem ofDigitChars_pos {c : Char} (isDigit : c.isDigit = true) (notZero : c ≠ '0') :
    0 < Nat.ofDigitChars 10 (c :: digits) 0 := by
  rw [Nat.ofDigitChars_cons, Nat.ofDigitChars_eq_ofDigitChars_zero, Nat.mul_zero, Nat.zero_add]
  have counts := Nat.mul_pos (Nat.pow_pos (by decide) : 0 < 10 ^ digits.length)
    (digit_pos isDigit notZero)
  omega

/-- Digits that do not begin with a zero are the text of their number. -/
theorem toDigits_ofDigitChars {c : Char} (all : ∀ d ∈ c :: digits, d.isDigit = true)
    (notZero : c ≠ '0') : Nat.toDigits 10 (Nat.ofDigitChars 10 (c :: digits) 0) = c :: digits := by
  have isDigit := all c List.mem_cons_self
  -- The last digit is the remainder, so the induction is from the end of the text.
  induction digits using List.reverseRecOn with
  | nil =>
      rw [Nat.ofDigitChars_cons, Nat.ofDigitChars_nil, Nat.mul_zero, Nat.zero_add,
        Nat.toDigits_of_lt_base (digit_lt_ten isDigit), digitChar_digit isDigit]
  | append_singleton digits last ih =>
      have lastDigit := all last (by simp)
      have before : ∀ d ∈ c :: digits, d.isDigit = true := fun d inside =>
        all d (by rw [← List.cons_append]; exact List.mem_append_left _ inside)
      have positive : 0 < Nat.ofDigitChars 10 (c :: digits) 0 := ofDigitChars_pos isDigit notZero
      have split := Nat.toDigits_append_toDigits (by decide) positive (digit_lt_ten lastDigit)
      rw [← List.cons_append, Nat.ofDigitChars_append, Nat.ofDigitChars_cons, Nat.ofDigitChars_nil,
        ← split, ih before, Nat.toDigits_of_lt_base (digit_lt_ten lastDigit),
        digitChar_digit lastDigit]

/-- The text of a positive number does not begin with a zero. -/
theorem head?_toDigits (positive : 0 < number) : (Nat.toDigits 10 number).head? ≠ some '0' := by
  induction number using Nat.strongRecOn with
  | _ number ih =>
      by_cases small : number < 10
      · rw [Nat.toDigits_of_lt_base small, List.head?_cons, Ne, Option.some.injEq,
          Nat.digitChar_eq_zero]
        omega
      · have quotient := ih (number / 10) (by omega) (by omega)
        obtain ⟨c, rest, quotient_eq⟩ := List.exists_cons_of_ne_nil
          (Nat.toDigits_ne_nil : Nat.toDigits 10 (number / 10) ≠ [])
        rw [quotient_eq] at quotient
        rw [Nat.toDigits_of_base_le (by decide) (by omega), quotient_eq]
        exact quotient

/-- Digits that do not begin with a zero are read as the number of which they are the text. -/
theorem readBounded?_eq_some_iff {limit : Nat} {c : Char} (isDigit : c.isDigit = true)
    (notZero : c ≠ '0') :
    readBounded? limit (c :: digits) = some number ↔
      (String.ofList (c :: digits) = number.repr ∧ 0 < number) ∧ number ≤ limit := by
  rw [readBounded?, Option.filter_eq_some_iff, decide_eq_true_eq, readDecimal?_eq_some_iff]
  refine and_congr_left fun _ => ?_
  constructor
  · rintro ⟨-, all, rfl⟩
    rw [Nat.repr_eq_ofList_toDigits, toDigits_ofDigitChars all notZero]
    exact ⟨rfl, ofDigitChars_pos isDigit notZero⟩
  · rintro ⟨text_eq, -⟩
    rw [Nat.repr_eq_ofList_toDigits, String.ofList_inj] at text_eq
    rw [text_eq]
    exact ⟨Nat.toDigits_ne_nil, fun c => Nat.isDigit_of_mem_toDigits (by decide) (by decide),
      Nat.ofDigitChars_ten_toDigits⟩

end Recordgen.Text
