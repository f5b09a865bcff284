import Recordgen.Proofs.TextParts
import Recordgen.TypeString

/-! # The form of type strings

A text is a type string if, without the blanks at its ends, it is a lower-case name, alone or in
front of a pair of brackets whose parts are not blank (`TypeString.Form`). Reading accepts exactly
these texts and keeps the name and the trimmed parts, and what is displayed is in this form again and
stands for the same type string (`TypeString.parse_canonical`).
-/

namespace Recordgen

namespace TypeString

variable {text : List Char} {typeString : TypeString}

/-! The grammar. -/

/-- A character that can begin a name: `a` to `z` or an underscore. -/
def IsStart (c : Char) : Prop :=
  ('a' ≤ c ∧ c ≤ 'z') ∨ c = '_'

/-- A name: a letter or underscore, then letters, digits and underscores. -/
def IsName : List Char → Prop
  | [] => False
  | first :: rest => IsStart first ∧ ∀ c ∈ rest, IsStart c ∨ ('0' ≤ c ∧ c ≤ '9')

/-- A part between brackets: without brackets and semicolons, and not blank. -/
structure IsPart (part : List Char) : Prop where
  plain : '[' ∉ part ∧ ']' ∉ part ∧ ';' ∉ part
  filled : ∃ c ∈ part, Text.isBlank c = false

/-- A name, or a name and parts between brackets at the end of the text. -/
inductive Form : List Char → TypeString → Prop
  | name {name : List Char} (named : IsName name) : Form name ⟨String.ofList name, []⟩
  | params {name : List Char} {parts : List (List Char)} (named : IsName name)
      (present : parts ≠ [])
      (each : ∀ part ∈ parts, IsPart part) :
      Form (name ++ '[' :: ([';'].intercalate parts ++ [']']))
        ⟨String.ofList name, parts.map fun part => String.ofList (Text.trimChars part)⟩

private theorem isNameStart_iff {c : Char} : isNameStart c = true ↔ IsStart c := by
  have lower : c.isLower = (decide ('a' ≤ c) && decide (c ≤ 'z')) := rfl
  simp [isNameStart, IsStart, lower]

private theorem isNameRest_iff {c : Char} :
    isNameRest c = true ↔ IsStart c ∨ ('0' ≤ c ∧ c ≤ '9') := by
  simp [isNameRest, isNameStart_iff, Char.isDigit, Char.le_def]

private theorem isBlank_of_isNameRest {c : Char} (inside : isNameRest c = true) :
    Text.isBlank c = false := by
  have code : c.toNat = 95 ∨ 97 ≤ c.toNat ∧ c.toNat ≤ 122 ∨ 48 ≤ c.toNat ∧ c.toNat ≤ 57 := by
    rw [isNameRest_iff, IsStart] at inside
    rcases inside with (letter | rfl) | digit
    · exact .inr (.inl letter)
    · exact .inl rfl
    · exact .inr (.inr digit)
  rw [Text.isBlank, Bool.eq_false_iff, Ne, Text.inRanges_eq_true_iff]
  simp only [Text.blankRanges, List.mem_cons, List.not_mem_nil, or_false, exists_eq_or_imp,
    exists_eq_left]
  omega

/-- A name is read as far as it goes. -/
theorem readName?_eq_some_iff {name rest : List Char} :
    readName? text = some (name, rest) ↔
      IsName name ∧ text = name ++ rest ∧ ∀ c ∈ rest.head?, isNameRest c = false := by
  constructor
  · intro read
    cases text with
    | nil => cases read
    | cons first text =>
        simp only [readName?, Option.ite_none_right_eq_some, Option.some.injEq,
          Prod.mk.injEq] at read
        obtain ⟨starts, rfl, rfl⟩ := read
        have stops := List.head?_dropWhile_not isNameRest text
        refine ⟨⟨isNameStart_iff.mp starts, fun c inside => ?_⟩, ?_, fun c begins => ?_⟩
        · exact isNameRest_iff.mp (List.mem_takeWhile_imp inside)
        · rw [List.cons_append, List.takeWhile_append_dropWhile]
        · simpa only [Option.mem_def.mp begins] using stops
  · rintro ⟨named, rfl, stops⟩
    cases name with
    | nil => exact named.elim
    | cons first name =>
        have within : ∀ c ∈ name, isNameRest c = true := fun c inside =>
          isNameRest_iff.mpr (named.2 c inside)
        -- What follows does not go on with the name, so nothing of it is taken.
        have behind : rest.takeWhile isNameRest = [] ∧ rest.dropWhile isNameRest = rest := by
          cases rest with
          | nil => exact ⟨rfl, rfl⟩
          | cons c rest => simp [stops c rfl]
        rw [List.cons_append, readName?, if_pos (isNameStart_iff.mpr named.1),
          List.takeWhile_append_of_pos within, List.dropWhile_append_of_pos within, behind.1,
          behind.2, List.append_nil]

private theorem isPart_iff {part : List Char} :
    IsPart part ↔ ('[' ∉ part ∧ ']' ∉ part ∧ ';' ∉ part) ∧ Text.trimChars part ≠ [] := by
  have blank : (∃ c ∈ part, Text.isBlank c = false) ↔ Text.trimChars part ≠ [] := by
    simp [Text.trimChars_eq_nil_iff]
  exact ⟨fun ⟨plain, filled⟩ => ⟨plain, blank.mp filled⟩,
    fun ⟨plain, filled⟩ => ⟨plain, blank.mpr filled⟩⟩

/-- What stands between brackets is cut into parts at its semicolons. -/
theorem forall_isPart_iff {inside : List Char} :
    (∀ part ∈ Text.splitAtChar ';' inside, IsPart part) ↔
      (∀ c ∈ inside, isParamChar c = true) ∧
        ((Text.splitAtChar ';' inside).map Text.trimChars).all (fun part => !part.isEmpty) = true := by
  simp only [isPart_iff, List.all_map, List.all_eq_true, Function.comp_apply, Bool.not_eq_true',
    List.isEmpty_eq_false_iff]
  constructor
  · intro each
    refine ⟨fun c held => ?_, fun part listed => (each part listed).2⟩
    have joined : [';'].intercalate (Text.splitAtChar ';' inside) = inside := by
      rw [Text.splitAtChar_eq_splitOn, List.intercalate_splitOn]
    rw [← joined] at held
    rcases Text.mem_intercalate held with rfl | ⟨part, listed, found⟩
    · rfl
    · have plain := (each part listed).1
      have other : c ≠ '[' ∧ c ≠ ']' :=
        ⟨fun same => plain.1 (same ▸ found), fun same => plain.2.1 (same ▸ found)⟩
      simp [isParamChar, other]
  · rintro ⟨plain, filled⟩ part listed
    have kept : ∀ c ∈ part, isParamChar c = true ∧ c ≠ ';' := by
      intro c found
      obtain ⟨held, other⟩ := Text.mem_of_mem_splitWhere listed found
      exact ⟨plain c held, of_decide_eq_false other⟩
    refine ⟨⟨fun found => ?_, fun found => ?_, fun found => ?_⟩, filled part listed⟩
    · exact absurd (kept _ found).1 (by decide)
    · exact absurd (kept _ found).1 (by decide)
    · exact (kept _ found).2 rfl

/-- What follows a name is nothing, or parts between brackets. -/
theorem readParams?_eq_some_iff {params : List String} :
    readParams? text = some params ↔
      text = [] ∧ params = [] ∨
        ∃ parts, parts ≠ [] ∧ (∀ part ∈ parts, IsPart part) ∧
          text = '[' :: ([';'].intercalate parts ++ [']']) ∧
          params = parts.map fun part => String.ofList (Text.trimChars part) := by
  constructor
  · intro read
    rw [readParams?.eq_def] at read
    split at read
    · exact .inl ⟨rfl, (Option.some.inj read).symm⟩
    · rename_i rest
      simp only [Option.ite_none_right_eq_some, Bool.and_eq_true, decide_eq_true_eq,
        Option.some.injEq] at read
      obtain ⟨⟨ends, filled⟩, rfl⟩ := read
      refine .inr ⟨Text.splitAtChar ';' (rest.takeWhile isParamChar), Text.splitWhere_ne_nil _ _,
        forall_isPart_iff.mpr ⟨fun c held => List.mem_takeWhile_imp held, filled⟩, ?_, ?_⟩
      · rw [Text.splitAtChar_eq_splitOn, List.intercalate_splitOn, ← ends,
          List.takeWhile_append_dropWhile]
      · rw [List.map_map]
        rfl
    · cases read
  · rintro (⟨rfl, rfl⟩ | ⟨parts, present, each, rfl, rfl⟩)
    · rfl
    · -- No part holds a semicolon, so the joined parts are cut where they were joined.
      have cut : Text.splitAtChar ';' ([';'].intercalate parts) = parts := by
        rw [Text.splitAtChar_eq_splitOn,
          List.splitOn_intercalate _ (fun part listed => (each part listed).plain.2.2) present]
      obtain ⟨plain, filled⟩ := forall_isPart_iff.mp (cut.symm ▸ each)
      rw [cut] at filled
      have taken : ([';'].intercalate parts ++ [']']).takeWhile isParamChar =
          [';'].intercalate parts := by
        rw [List.takeWhile_append_of_pos plain]
        exact List.append_nil _
      have left : ([';'].intercalate parts ++ [']']).dropWhile isParamChar = [']'] := by
        rw [List.dropWhile_append_of_pos plain]
        rfl
      simp only [readParams?, taken, left, cut, filled, decide_true, Bool.and_self, if_true,
        List.map_map]
      rfl

private theorem readChars?_eq_some_iff :
    readChars? text = some typeString ↔ Form text typeString := by
  simp only [readChars?, Option.bind_eq_some_iff, Option.map_eq_some_iff, Prod.exists,
    readName?_eq_some_iff, readParams?_eq_some_iff]
  constructor
  · rintro ⟨name, rest, ⟨named, rfl, -⟩, params, ⟨rfl, rfl⟩ | ⟨parts, present, each, rfl, rfl⟩, rfl⟩
    · rw [List.append_nil]
      exact .name named
    · exact .params named present each
  · rintro (named | ⟨named, present, each⟩)
    · exact ⟨_, [], ⟨named, (List.append_nil _).symm, by simp⟩, [], .inl ⟨rfl, rfl⟩, rfl⟩
    · refine ⟨_, _, ⟨named, rfl, ?_⟩, _, .inr ⟨_, present, each, rfl, rfl⟩, rfl⟩
      intro c begins
      exact Option.some.inj begins ▸ rfl

/-- A name and a closing bracket leave no blanks at the ends. -/
theorem Form.isTrimmed (form : Form text typeString) : Text.IsTrimmed text := by
  have solid : ∀ {name : List Char}, IsName name → ∀ c ∈ name, Text.isBlank c = false := by
    intro name named c inside
    cases name with
    | nil => cases inside
    | cons first rest =>
        refine isBlank_of_isNameRest (isNameRest_iff.mpr ?_)
        rcases List.mem_cons.mp inside with rfl | later
        · exact .inl named.1
        · exact named.2 c later
  cases form with
  | name named =>
      exact ⟨fun c begins => solid named c (List.mem_of_mem_head? begins),
        fun c ends => solid named c (List.mem_of_mem_getLast? ends)⟩
  | @params name parts named present each =>
      constructor
      · intro c begins
        cases name with
        | nil => exact named.elim
        | cons first rest => exact solid named c (List.mem_of_mem_head? begins)
      · intro c ends
        rw [← List.cons_append, ← List.append_assoc, List.getLast?_concat] at ends
        exact Option.some.inj ends ▸ rfl

theorem IsPart.trim {part : List Char} (valid : IsPart part) : IsPart (Text.trimChars part) := by
  rw [isPart_iff] at valid ⊢
  rw [Text.trimChars_trimChars]
  have kept := Text.trimChars_subset part
  obtain ⟨⟨opening, closing, semicolon⟩, filled⟩ := valid
  exact ⟨⟨mt (kept ·) opening, mt (kept ·) closing, mt (kept ·) semicolon⟩, filled⟩

private theorem toList_display_of_params {name : String} {params : List String}
    (present : params ≠ []) :
    (display ⟨name, params⟩).toList =
      name.toList ++ '[' :: ([';'].intercalate (params.map String.toList) ++ [']']) := by
  cases params with
  | nil => exact absurd rfl present
  | cons first rest =>
      simp only [display, String.toList_append, String.toList_intercalate, List.append_assoc]
      rfl

/-- What is displayed has the form of a type string, with its parts trimmed. -/
theorem Form.display (form : Form text typeString) : Form typeString.display.toList typeString := by
  cases form with
  | @name name named =>
      rw [TypeString.display, String.toList_ofList]
      exact .name named
  | @params name parts named present each =>
      have again : Form (name ++ '[' :: ([';'].intercalate (parts.map Text.trimChars) ++ [']']))
          ⟨String.ofList name, (parts.map Text.trimChars).map fun part =>
            String.ofList (Text.trimChars part)⟩ := by
        refine .params named (by simpa using present) ?_
        rw [List.forall_mem_map]
        exact fun part listed => (each part listed).trim
      rw [toList_display_of_params (by simpa using present), String.toList_ofList]
      simpa [Function.comp_def, Text.trimChars_trimChars] using again

/-- A text is read exactly if it has the form once trimmed. -/
theorem parse_eq_ok_iff {text : String} :
    parse text = .ok typeString ↔ Form (Text.trim text).toList typeString := by
  rw [Text.toList_trim, ← readChars?_eq_some_iff, parse]
  split <;> simp [*]

/-- What is displayed is read again as itself. -/
theorem parse_display {text : String} (read : parse text = .ok typeString) :
    parse typeString.display = .ok typeString := by
  have shown := (parse_eq_ok_iff.mp read).display
  rw [parse_eq_ok_iff, Text.toList_trim, Text.trimChars_of_isTrimmed shown.isTrimmed]
  exact shown

/-- **Type strings.** A text is read exactly if, trimmed, it is a name, alone or with parts between
brackets that are not blank; the type string holds the name and the trimmed parts. A text that is
not read is named in the error. What a type string displays is read as that type string again. -/
theorem parse_canonical (text : String) :
    (∀ typeString, parse text = .ok typeString ↔ Form (Text.trim text).toList typeString) ∧
    (parse text = .error (.malformed (.typeString text)) ↔
      ¬ ∃ typeString, Form (Text.trim text).toList typeString) ∧
    (∀ typeString, parse text = .ok typeString →
      parse typeString.display = .ok typeString) ∧
    (parse text >>= fun typeString => parse typeString.display) = parse text := by
  refine ⟨fun _ => parse_eq_ok_iff, ?_, fun _ => parse_display, ?_⟩
  · simp only [← parse_eq_ok_iff]
    rw [parse]
    split <;> simp
  · cases read : parse text with
    | error fault => rfl
    | ok typeString => exact parse_display read

example : parse "\u00a0a_1[ I32 ;\n\u3000x y]\n" = .ok ⟨"a_1", ["I32", "x y"]⟩ := by
  decide +kernel

end TypeString

end Recordgen
