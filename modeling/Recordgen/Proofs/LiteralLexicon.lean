import Mathlib.Computability.Language
import Mathlib.Data.List.TakeWhile
import Recordgen.Literal.Lexicon

/-! # The language of each literal type

The plain texts of a type form a language that is put together from character classes by choice,
sequence and repetition (`lexicon`). The tests by which plain texts are recognised decide these
languages (`inLexicon_eq_true_iff`).
-/

namespace Recordgen.Literal

open Computability

/-- The texts of one character of a class. -/
def oneOf (holds : Char → Prop) : Language Char :=
  {text | ∃ c, holds c ∧ text = [c]}

/-- A decimal digit of any script. -/
def digit : Language Char :=
  oneOf (Text.isDigit · = true)

/-- One or more digits. -/
def digits : Language Char :=
  digit * digit∗

/-- One given character. -/
def mark (c : Char) : Language Char :=
  oneOf (· = c)

/-- A plus or a minus sign. -/
def sign : Language Char :=
  oneOf fun c => c = '+' ∨ c = '-'

/-- Digits with an optional point among or behind them, or a point and digits. -/
def mantissa : Language Char :=
  digits * (1 + mark '.') * digit∗ + mark '.' * digits

/-- The letter e, an optional sign and digits. -/
def exponent : Language Char :=
  oneOf (fun c => c = 'e' ∨ c = 'E') * ((1 + sign) * digits)

/-- The plain texts of a type. -/
def lexicon : LiteralType → Language Char
  | .string => ⊤
  | .char => oneOf fun _ => True
  | .bool => {"true".toList} + {"false".toList} + mark '1' + mark '0'
  | .date => digit ^ 4 * (mark '-' * (digit ^ 2 * (mark '-' * digit ^ 2)))
  | .decimal => (1 + sign) * (mantissa * (1 + exponent))
  | .enum | .i16u | .i32u | .i64u => (1 + mark '+') * digits
  | .i16 | .i32 | .i64 => (1 + sign) * digits

section Classes

variable {holds : Char → Prop} {text : List Char}

private theorem mem_oneOf : text ∈ oneOf holds ↔ ∃ c, holds c ∧ text = [c] :=
  Iff.rfl

private theorem mem_kstar_oneOf : text ∈ (oneOf holds)∗ ↔ ∀ c ∈ text, holds c := by
  rw [Language.mem_kstar]
  constructor
  · rintro ⟨parts, rfl, all⟩ c inside
    obtain ⟨part, member, inside⟩ := List.mem_flatten.mp inside
    obtain ⟨d, held, rfl⟩ := all part member
    exact List.mem_singleton.mp inside ▸ held
  · intro all
    have joined : (text.map ([·])).flatten = text := List.flatMap_singleton' text
    refine ⟨text.map ([·]), joined.symm, fun part member => ?_⟩
    obtain ⟨c, inside, rfl⟩ := List.mem_map.mp member
    exact ⟨c, all c inside, rfl⟩

private theorem mem_pow_oneOf {count : Nat} :
    text ∈ oneOf holds ^ count ↔ text.length = count ∧ ∀ c ∈ text, holds c := by
  induction count generalizing text with
  | zero =>
      rw [pow_zero, Language.mem_one, List.length_eq_zero_iff, iff_self_and]
      rintro rfl c inside
      cases inside
  | succ count ih =>
      rw [pow_succ', Language.mem_mul]
      constructor
      · rintro ⟨_, ⟨c, held, rfl⟩, rest, member, rfl⟩
        obtain ⟨rfl, all⟩ := ih.mp member
        exact ⟨rfl, List.forall_mem_cons.mpr ⟨held, all⟩⟩
      · rintro ⟨length, all⟩
        cases text with
        | nil => cases length
        | cons c rest =>
            obtain ⟨held, all⟩ := List.forall_mem_cons.mp all
            exact ⟨[c], ⟨c, held, rfl⟩, rest, ih.mpr ⟨Nat.succ.inj length, all⟩, rfl⟩

private theorem mem_oneOf_mul {rest : Language Char} :
    text ∈ oneOf holds * rest ↔ ∃ c behind, holds c ∧ behind ∈ rest ∧ text = c :: behind := by
  rw [Language.mem_mul]
  constructor
  · rintro ⟨_, ⟨c, held, rfl⟩, behind, member, rfl⟩
    exact ⟨c, behind, held, member, rfl⟩
  · rintro ⟨c, behind, held, member, rfl⟩
    exact ⟨[c], ⟨c, held, rfl⟩, behind, member, rfl⟩

private theorem mem_mark {c : Char} : text ∈ mark c ↔ text = [c] := by
  simp [mark, mem_oneOf]

end Classes

section Tests

variable {text : List Char}

/-- The scan for digits accepts the language of digits. -/
theorem isDigits_eq_true_iff : isDigits text = true ↔ text ∈ digits := by
  rw [digits, digit, mem_oneOf_mul]
  constructor
  · intro all
    cases text with
    | nil => cases all
    | cons c rest =>
        obtain ⟨here, later⟩ := List.forall_mem_cons.mp (List.all_eq_true.mp all)
        exact ⟨c, rest, here, mem_kstar_oneOf.mpr later, rfl⟩
  · rintro ⟨c, rest, held, all, rfl⟩
    exact List.all_eq_true.mpr (List.forall_mem_cons.mpr ⟨held, mem_kstar_oneOf.mp all⟩)

/-- A text of digits is not empty and has digits only. -/
theorem mem_digits_iff : text ∈ digits ↔ text ≠ [] ∧ ∀ c ∈ text, Text.isDigit c = true := by
  simp [← isDigits_eq_true_iff, isDigits]

/-- Drops one character of a class from the front. -/
def dropLead (leads : Char → Prop) [DecidablePred leads] : List Char → List Char
  | [] => []
  | c :: rest => if leads c then rest else c :: rest

private theorem dropSign_eq : dropSign text = dropLead (fun c => c = '+' ∨ c = '-') text := by
  rw [dropSign.eq_def]
  split
  · rfl
  · rfl
  · rename_i notPlus notMinus
    cases text with
    | nil => rfl
    | cons c rest =>
        have solid : ¬(c = '+' ∨ c = '-') := by
          rintro (rfl | rfl)
          · exact notPlus rest rfl
          · exact notMinus rest rfl
        rw [dropLead, if_neg solid]

private theorem dropPlus_eq : dropPlus text = dropLead (· = '+') text := by
  rw [dropPlus.eq_def]
  split
  · rfl
  · rename_i notPlus
    cases text with
    | nil => rfl
    | cons c rest =>
        have solid : ¬c = '+' := by
          rintro rfl
          exact notPlus rest rfl
        rw [dropLead, if_neg solid]

/-- An optional lead can be dropped in front of a language whose texts do not begin with one. -/
theorem dropLead_mem_iff {leads : Char → Prop} [DecidablePred leads] {rest : Language Char}
    (unled : ∀ c behind, leads c → c :: behind ∉ rest) :
    dropLead leads text ∈ rest ↔ text ∈ (1 + oneOf leads) * rest := by
  rw [add_mul, one_mul, Language.mem_add, mem_oneOf_mul]
  cases text with
  | nil => simp [dropLead]
  | cons c behind =>
      by_cases led : leads c
      · rw [dropLead, if_pos led, or_iff_right (unled c behind led)]
        simp [led]
      · simp [dropLead, led]

/-- Digits do not begin with a sign. -/
theorem cons_notMem_digits {c : Char} (behind : List Char) (signed : c = '+' ∨ c = '-') :
    c :: behind ∉ digits := by
  intro member
  have isDigit := (mem_digits_iff.mp member).2 c List.mem_cons_self
  rcases signed with rfl | rfl <;> exact absurd isDigit (by decide)

/-- Digits are left without the sign exactly if there is at most one sign before digits. -/
theorem isDigits_dropSign_iff : isDigits (dropSign text) = true ↔ text ∈ (1 + sign) * digits := by
  rw [isDigits_eq_true_iff, dropSign_eq]
  exact dropLead_mem_iff fun c behind => cons_notMem_digits behind

private theorem isDigits_dropPlus_iff :
    isDigits (dropPlus text) = true ↔ text ∈ (1 + mark '+') * digits := by
  rw [isDigits_eq_true_iff, dropPlus_eq]
  exact dropLead_mem_iff fun c behind plus => cons_notMem_digits behind (.inl plus)

private theorem isExponent_eq_true_iff : isExponent text = true ↔ text ∈ 1 + exponent := by
  rw [Language.mem_add, Language.mem_one, exponent, mem_oneOf_mul]
  cases text with
  | nil => simp [isExponent]
  | cons c rest =>
      rw [isExponent, Bool.and_eq_true, isDigits_dropSign_iff]
      constructor
      · rintro ⟨letter, member⟩
        exact .inr ⟨c, rest, by simpa using letter, member, rfl⟩
      · rintro (empty | ⟨d, behind, letter, member, same⟩)
        · cases empty
        · obtain ⟨rfl, rfl⟩ := List.cons.inj same
          exact ⟨by simpa using letter, member⟩

section Runs

variable {whole rest : List Char} (all : ∀ c ∈ whole, Text.isDigit c = true)
  (ends : ∀ c ∈ rest.head?, Text.isDigit c = false)

include all ends

private theorem takeWhile_digits : (whole ++ rest).takeWhile Text.isDigit = whole := by
  rw [List.takeWhile_append_of_pos all]
  cases rest with
  | nil => simp
  | cons c rest => simp [ends c rfl]

private theorem dropWhile_digits : (whole ++ rest).dropWhile Text.isDigit = rest := by
  rw [List.dropWhile_append_of_pos all]
  cases rest with
  | nil => simp
  | cons c rest => simp [ends c rfl]

end Runs

/-- An exponent begins with a letter. -/
theorem head?_of_isExponent (exponent : isExponent text = true) :
    ∀ c ∈ text.head?, Text.isDigit c = false ∧ c ≠ '.' := by
  cases text with
  | nil => simp
  | cons c rest =>
      intro d first
      obtain rfl : c = d := by simpa using first
      rw [isExponent, Bool.and_eq_true, Bool.or_eq_true, decide_eq_true_eq,
        decide_eq_true_eq] at exponent
      rcases exponent.1 with rfl | rfl <;> decide

section Numbers

variable {whole fraction rest : List Char} (wholeDigits : ∀ c ∈ whole, Text.isDigit c = true)
  (exponential : isExponent rest = true)

include wholeDigits exponential

private theorem isDecimal_of_point (fractionDigits : ∀ c ∈ fraction, Text.isDigit c = true)
    (unsigned : dropSign text = whole ++ '.' :: (fraction ++ rest)) :
    isDecimal text = (!whole.isEmpty || !fraction.isEmpty) := by
  have point : Text.isDigit '.' = false := by decide
  have ends : ∀ c ∈ ('.' :: (fraction ++ rest)).head?, Text.isDigit c = false := by
    simpa using point
  have stops : ∀ c ∈ rest.head?, Text.isDigit c = false := fun c first =>
    (head?_of_isExponent exponential c first).1
  rw [isDecimal, unsigned, takeWhile_digits wholeDigits ends, dropWhile_digits wholeDigits ends]
  simp only [takeWhile_digits fractionDigits stops, dropWhile_digits fractionDigits stops,
    exponential, Bool.and_true]

private theorem isDecimal_of_whole (unsigned : dropSign text = whole ++ rest) :
    isDecimal text = !whole.isEmpty := by
  have stops : ∀ c ∈ rest.head?, Text.isDigit c = false := fun c first =>
    (head?_of_isExponent exponential c first).1
  rw [isDecimal, unsigned, takeWhile_digits wholeDigits stops, dropWhile_digits wholeDigits stops]
  split
  · exact absurd rfl (head?_of_isExponent exponential '.' rfl).2
  · rw [exponential, Bool.and_true]

end Numbers

/-- A number is read as its digits up to the first other character, a point with the digits behind
it, if there is one, and an exponent. -/
theorem exists_parts_of_isDecimal (decimal : isDecimal text = true) :
    ∃ whole rest, dropSign text = whole ++ rest ∧ (∀ c ∈ whole, Text.isDigit c = true) ∧
      ((∃ fraction behind, rest = '.' :: (fraction ++ behind) ∧
          (∀ c ∈ fraction, Text.isDigit c = true) ∧ isExponent behind = true ∧
          (whole ≠ [] ∨ fraction ≠ [])) ∨
        isExponent rest = true ∧ whole ≠ []) := by
  have taken : ∀ part : List Char, ∀ c ∈ part.takeWhile Text.isDigit, Text.isDigit c = true :=
    fun part c inside => List.mem_takeWhile_imp inside
  refine ⟨_, _, List.takeWhile_append_dropWhile.symm, taken _, ?_⟩
  rw [isDecimal] at decimal
  split at decimal
  · rename_i rest found
    rw [Bool.and_eq_true, Bool.or_eq_true] at decimal
    refine .inl ⟨_, _, ?_, taken rest, decimal.2, by simpa using decimal.1⟩
    rw [List.takeWhile_append_dropWhile, found]
  · rw [Bool.and_eq_true] at decimal
    exact .inr ⟨decimal.2, by simpa using decimal.1⟩

private theorem mem_mantissa_iff : text ∈ mantissa ↔ text ∈ digits ∨
    ∃ whole fraction, text = whole ++ '.' :: fraction ∧ (∀ c ∈ whole, Text.isDigit c = true) ∧
      (∀ c ∈ fraction, Text.isDigit c = true) ∧ (whole ≠ [] ∨ fraction ≠ []) := by
  rw [mantissa, Language.mem_add, Language.mem_mul, mark, mem_oneOf_mul]
  constructor
  · rintro (⟨_, led, fraction, behind, rfl⟩ | ⟨c, fraction, rfl, member, rfl⟩)
    · obtain ⟨whole, member, point, optional, rfl⟩ := Language.mem_mul.mp led
      obtain ⟨filled, wholeDigits⟩ := mem_digits_iff.mp member
      have fractionDigits := mem_kstar_oneOf.mp behind
      rcases optional with empty | pointed
      · obtain rfl := (Language.mem_one _).mp empty
        refine .inl (mem_digits_iff.mpr ⟨by simp [filled], ?_⟩)
        rw [List.append_nil]
        exact List.forall_mem_append.mpr ⟨wholeDigits, fractionDigits⟩
      · obtain rfl := mem_mark.mp pointed
        exact .inr ⟨whole, fraction, by simp, wholeDigits, fractionDigits, .inl filled⟩
    · obtain ⟨filled, fractionDigits⟩ := mem_digits_iff.mp member
      exact .inr ⟨[], fraction, rfl, by simp, fractionDigits, .inr filled⟩
  · rintro (member | ⟨whole, fraction, rfl, wholeDigits, fractionDigits, filled⟩)
    · refine .inl ⟨text, ?_, [], Language.nil_mem_kstar _, List.append_nil _⟩
      exact Language.mem_mul.mpr ⟨text, member, [], .inl rfl, List.append_nil _⟩
    · by_cases empty : whole = []
      · subst empty
        have behind :=
          mem_digits_iff.mpr ⟨filled.resolve_left fun other => other rfl, fractionDigits⟩
        exact .inr ⟨'.', fraction, rfl, behind, rfl⟩
      · refine .inl ⟨whole ++ ['.'], ?_, fraction, mem_kstar_oneOf.mpr fractionDigits, by simp⟩
        exact Language.mem_mul.mpr
          ⟨whole, mem_digits_iff.mpr ⟨empty, wholeDigits⟩, ['.'], .inr (mem_mark.mpr rfl), rfl⟩

private theorem isDecimal_eq_true_iff :
    isDecimal text = true ↔ dropSign text ∈ mantissa * (1 + exponent) := by
  rw [Language.mem_mul]
  constructor
  · intro decimal
    obtain ⟨whole, rest, unsigned, wholeDigits, pointed | plain⟩ :=
      exists_parts_of_isDecimal decimal
    · obtain ⟨fraction, behind, rfl, fractionDigits, exponential, filled⟩ := pointed
      refine ⟨whole ++ '.' :: fraction, mem_mantissa_iff.mpr (.inr ?_), behind,
        isExponent_eq_true_iff.mp exponential, by simp [unsigned]⟩
      exact ⟨whole, fraction, rfl, wholeDigits, fractionDigits, filled⟩
    · obtain ⟨exponential, filled⟩ := plain
      refine ⟨whole, mem_mantissa_iff.mpr (.inl ?_), rest, isExponent_eq_true_iff.mp exponential,
        unsigned.symm⟩
      exact mem_digits_iff.mpr ⟨filled, wholeDigits⟩
  · rintro ⟨number, member, rest, exponential, unsigned⟩
    rw [← isExponent_eq_true_iff] at exponential
    rcases mem_mantissa_iff.mp member with member | pointed
    · obtain ⟨filled, wholeDigits⟩ := mem_digits_iff.mp member
      rw [isDecimal_of_whole wholeDigits exponential unsigned.symm]
      simpa using filled
    · obtain ⟨whole, fraction, rfl, wholeDigits, fractionDigits, filled⟩ := pointed
      rw [isDecimal_of_point wholeDigits exponential fractionDigits (by simp [← unsigned])]
      simpa using filled

/-- A number without its sign does not begin with a sign. -/
theorem cons_notMem_unsigned {c : Char} (behind : List Char) (signed : c = '+' ∨ c = '-') :
    c :: behind ∉ mantissa * (1 + exponent) := by
  rintro ⟨number, member, rest, -, same⟩
  have first : ∃ d tail, number = d :: tail ∧ (Text.isDigit d = true ∨ d = '.') := by
    rcases mem_mantissa_iff.mp member with member | ⟨whole, fraction, rfl, wholeDigits, -⟩
    · obtain ⟨filled, isDigit⟩ := mem_digits_iff.mp member
      obtain ⟨d, tail, rfl⟩ := List.exists_cons_of_ne_nil filled
      exact ⟨d, tail, rfl, .inl (isDigit d List.mem_cons_self)⟩
    · cases whole with
      | nil => exact ⟨'.', fraction, rfl, .inr rfl⟩
      | cons d whole => exact ⟨d, _, rfl, .inl (wholeDigits d List.mem_cons_self)⟩
  obtain ⟨d, tail, rfl, begins⟩ := first
  obtain ⟨rfl, -⟩ := List.cons.inj same
  rcases signed with rfl | rfl <;> exact absurd begins (by decide)

private theorem isDate_eq_true_iff : isDate text = true ↔
    text ∈ digit ^ 4 * (mark '-' * (digit ^ 2 * (mark '-' * digit ^ 2))) := by
  simp only [Language.mem_mul, mem_mark, digit, mem_pow_oneOf, exists_eq_left]
  have digits_iff : ∀ a b c d e f g h : Char,
      isDate [a, b, c, d, '-', e, f, '-', g, h] = true ↔
        (∀ x ∈ [a, b, c, d], Text.isDigit x = true) ∧ (∀ x ∈ [e, f], Text.isDigit x = true) ∧
          ∀ x ∈ [g, h], Text.isDigit x = true := by
    intro a b c d e f g h
    change ([a, b, c, d] ++ ([e, f] ++ [g, h])).all Text.isDigit = true ↔ _
    simp only [List.all_append, Bool.and_eq_true, List.all_eq_true]
  constructor
  · intro date
    have shape : ∃ a b c d e f g h, text = [a, b, c, d, '-', e, f, '-', g, h] := by
      rw [isDate.eq_def] at date
      split at date
      · exact ⟨_, _, _, _, _, _, _, _, rfl⟩
      · cases date
    obtain ⟨a, b, c, d, e, f, g, h, rfl⟩ := shape
    obtain ⟨yearDigits, monthDigits, dayDigits⟩ := (digits_iff a b c d e f g h).mp date
    exact ⟨[a, b, c, d], ⟨rfl, yearDigits⟩, _, ⟨_, ⟨[e, f], ⟨rfl, monthDigits⟩, _,
      ⟨[g, h], ⟨rfl, dayDigits⟩, rfl⟩, rfl⟩, rfl⟩, rfl⟩
  · rintro ⟨year, ⟨four, yearDigits⟩, _, ⟨_, ⟨month, ⟨two, monthDigits⟩, _,
      ⟨day, ⟨size, dayDigits⟩, rfl⟩, rfl⟩, rfl⟩, rfl⟩
    obtain ⟨a, b, c, d, rfl⟩ := List.length_eq_four.mp four
    obtain ⟨e, f, rfl⟩ := List.length_eq_two.mp two
    obtain ⟨g, h, rfl⟩ := List.length_eq_two.mp size
    exact (digits_iff a b c d e f g h).mpr ⟨yearDigits, monthDigits, dayDigits⟩

end Tests

/-- **The tests decide the languages.** -/
theorem inLexicon_eq_true_iff {type : LiteralType} {text : List Char} :
    inLexicon type text = true ↔ text ∈ lexicon type := by
  cases type with
  | string => exact iff_of_true rfl trivial
  | char => simp [inLexicon, lexicon, mem_oneOf, List.length_eq_one_iff]
  | bool =>
      have singleton : ∀ word : List Char, text ∈ ({word} : Language Char) ↔ text = word :=
        fun word => Iff.rfl
      simp only [inLexicon, lexicon, Bool.or_eq_true, decide_eq_true_eq, Language.mem_add, mem_mark,
        singleton]
  | date => exact isDate_eq_true_iff
  | decimal =>
      refine isDecimal_eq_true_iff.trans ?_
      rw [dropSign_eq]
      exact dropLead_mem_iff fun c behind => cons_notMem_unsigned behind
  | enum | i16u | i32u | i64u => exact isDigits_dropPlus_iff
  | i16 | i32 | i64 => exact isDigits_dropSign_iff

end Recordgen.Literal
