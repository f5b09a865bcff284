import Mathlib
import Recordgen.Proofs.ArtifactPaths

/-! # What identifiers keep of a name

Classes, members and constants spell a name in different ways, and each way merges some names. The
camel cases keep the letters and digits of a name up to their case (`letters_upperCamel`), and both
merge the same names (`lowerCamel_eq_iff`). A constant is written in words, and it merges the names
that have the same words (`constantName_eq_iff`).

The facts about the case of a letter come with the library as a whole, which is imported for them.
-/

namespace Recordgen

namespace Naming

theorem ne_underscore {c : Char} (plain : c.isAlphanum = true) : c ≠ '_' := by
  rintro rfl
  cases plain

private theorem isAlphanum_toLower {c : Char} (plain : c.isAlphanum = true) :
    c.toLower.isAlphanum = true := by
  have classes : ∀ d : Char, d.isAlphanum = (d.isUpper || d.isLower || d.isDigit) := fun _ => rfl
  have letters : c.isAlpha = (c.isUpper || c.isLower) := rfl
  by_cases letter : c.isAlpha = true
  · rw [classes, Char.isLower_toLower_eq_isAlpha, letter, Bool.or_true, Bool.true_or]
  · have capital : ¬c.isUpper = true := fun upper => letter (by rw [letters, upper, Bool.true_or])
    rwa [Char.toLower_eq_of_not_isUpper capital]

/-- The letters and digits of a name, in capitals. -/
def letters (name : String) : List Char :=
  (name.toList.filter Char.isAlphanum).map Char.toUpper

theorem letters_append (first second : String) :
    letters (first ++ second) = letters first ++ letters second := by
  simp [letters]

theorem letters_of_plain {name : String} (plain : ∀ c ∈ name.toList, c.isAlphanum = true) :
    letters name = name.toList.map Char.toUpper := by
  rw [letters, List.filter_eq_self.mpr plain]

section Camel

private theorem ne_nil_of_mem_words {text word : List Char} (listed : word ∈ words text) :
    word ≠ [] := by
  have filled := (List.mem_filter.mp listed).2
  intro empty
  rw [empty] at filled
  cases filled

private theorem flatten_words (text : List Char) :
    (words text).flatten = text.filter Char.isAlphanum := by
  have kept := Text.flatten_splitWhere (fun c => !c.isAlphanum) text
  simp only [Bool.not_not] at kept
  rw [← kept, words, List.flatten_filter_not_isEmpty]

@[simp]
private theorem map_toUpper_capitalize (word : List Char) :
    (capitalize word).map Char.toUpper = word.map Char.toUpper := by
  cases word <;> simp [capitalize]

/-- How a word starts does not matter once it is capitalized. -/
@[simp]
theorem capitalize_uncapitalize (word : List Char) :
    capitalize (uncapitalize word) = capitalize word := by
  cases word <;> simp [capitalize, uncapitalize]

/-- The camel case of a name starts with a capital, if it starts with a letter. -/
@[simp]
theorem capitalize_upperCamelChars (text : List Char) :
    capitalize (upperCamelChars text) = upperCamelChars text := by
  have filled : ∀ word ∈ words text, word ≠ [] := fun _ => ne_nil_of_mem_words
  rw [upperCamelChars]
  cases found : words text with
  | nil => rfl
  | cons word rest =>
      rw [found] at filled
      cases word with
      | nil => exact absurd rfl (filled [] List.mem_cons_self)
      | cons c word => simp [capitalize]

theorem map_toUpper_upperCamelChars (text : List Char) :
    (upperCamelChars text).map Char.toUpper = (text.filter Char.isAlphanum).map Char.toUpper := by
  rw [← flatten_words, upperCamelChars, List.map_flatMap, List.map_flatten, List.flatMap_def]
  simp only [map_toUpper_capitalize]

/-- Camel case keeps the letters of a name. -/
@[simp]
theorem letters_upperCamel (name : String) : letters (upperCamel name) = letters name := by
  rw [letters_of_plain fun _ => isAlphanum_of_mem_upperCamel, upperCamel, String.toList_ofList]
  exact map_toUpper_upperCamelChars _

/-- Both camel cases tell the same names apart. -/
theorem lowerCamel_eq_iff {first second : String} :
    lowerCamel first = lowerCamel second ↔ upperCamel first = upperCamel second := by
  rw [lowerCamel, lowerCamel, upperCamel, upperCamel, String.ofList_inj, String.ofList_inj]
  constructor
  · intro same
    have capitals := congrArg capitalize same
    simpa using capitals
  · exact congrArg uncapitalize

/-- Two names have one member variable exactly if they have one class name. -/
theorem member_eq_iff {first second : String} :
    member first = member second ↔ upperCamel first = upperCamel second := by
  rw [member, member, String.append_right_inj, lowerCamel_eq_iff]

/-- A name in lower camel case has letters and digits only. -/
theorem isAlphanum_of_mem_lowerCamel {name : String} {c : Char}
    (inside : c ∈ (lowerCamel name).toList) : c.isAlphanum = true := by
  have plain : ∀ c ∈ upperCamelChars name.toList, c.isAlphanum = true := by
    intro c inside
    refine @isAlphanum_of_mem_upperCamel name c ?_
    rwa [upperCamel, String.toList_ofList]
  rw [lowerCamel, String.toList_ofList] at inside
  cases found : upperCamelChars name.toList with
  | nil =>
      rw [found] at inside
      cases inside
  | cons first rest =>
      rw [found] at inside plain
      rcases List.mem_cons.mp inside with rfl | later
      · exact isAlphanum_toLower (plain first List.mem_cons_self)
      · exact plain c (List.mem_cons_of_mem _ later)

/-- Underscores divide words, and camel case has none. -/
theorem underscore_notMem_lowerCamel (name : String) : '_' ∉ (lowerCamel name).toList :=
  fun inside => ne_underscore (isAlphanum_of_mem_lowerCamel inside) rfl

end Camel

section Constants

variable {c d : Char} {word before : List Char} {name : String}

/-- Whether a character of a name belongs to the word of the character before it. -/
def continues (before c : Char) : Bool :=
  c.isAlphanum && !(c.isUpper && (before.isLower || before.isDigit))

/-- The words of a text, in capitals: its runs of letters and digits, cut in front of every capital
behind a small letter or a digit. -/
def capitalWords : List Char → List (List Char)
  | [] => []
  | c :: rest =>
    if c.isAlphanum then
      if rest.head?.any (continues c) then Text.consPart c.toUpper (capitalWords rest)
      else [c.toUpper] :: capitalWords rest
    else capitalWords rest

/-- The words that the constant of a name consists of. -/
def constantWords (name : String) : List (List Char) :=
  capitalWords name.toList

private theorem capitalWords_ne_nil (plain : c.isAlphanum = true) (rest : List Char) :
    capitalWords (c :: rest) ≠ [] := by
  rw [capitalWords, if_pos plain]
  split
  · cases capitalWords rest <;> exact List.cons_ne_nil _ _
  · exact List.cons_ne_nil _ _

/-- The words of a name hold its letters and digits, in capitals. -/
theorem flatten_capitalWords (text : List Char) :
    (capitalWords text).flatten = (text.filter Char.isAlphanum).map Char.toUpper := by
  induction text with
  | nil => rfl
  | cons c rest ih =>
      rw [capitalWords]
      by_cases plain : c.isAlphanum = true
      · rw [if_pos plain, List.filter_cons_of_pos plain, List.map_cons, ← ih]
        split
        · exact Text.flatten_consPart _ _
        · rfl
      · rw [if_neg plain, List.filter_cons_of_neg plain, ih]

/-- Words are not empty. -/
theorem ne_nil_of_mem_capitalWords {text : List Char} (listed : word ∈ capitalWords text) :
    word ≠ [] := by
  induction text with
  | nil => cases listed
  | cons c rest ih =>
      rw [capitalWords] at listed
      split at listed
      · split at listed
        · cases found : capitalWords rest with
          | nil =>
              rw [found] at listed
              rw [List.mem_singleton.mp listed]
              exact List.cons_ne_nil _ _
          | cons first others =>
              rw [found] at listed ih
              rcases List.mem_cons.mp listed with rfl | later
              · exact List.cons_ne_nil _ _
              · exact ih (List.mem_cons_of_mem _ later)
        · rcases List.mem_cons.mp listed with rfl | later
          · exact List.cons_ne_nil _ _
          · exact ih later
      · exact ih listed

theorem isAlphanum_of_mem_capitalWords {text : List Char} (listed : word ∈ capitalWords text)
    (inside : c ∈ word) : c.isAlphanum = true := by
  have kept : c ∈ (capitalWords text).flatten := List.mem_flatten.mpr ⟨word, listed, inside⟩
  rw [flatten_capitalWords] at kept
  obtain ⟨d, plain, rfl⟩ := List.mem_map.mp kept
  exact isAlphanum_toUpper (List.mem_filter.mp plain).2

/-- The constant as far as it has been read. -/
def Constant.text (constant : Constant) : List Char :=
  (constant.reversed.dropWhile (· = '_')).reverse

private theorem capitalWords_continue {rest : List Char} (plain : c.isAlphanum = true)
    (joined : continues c d = true) :
    capitalWords (c :: d :: rest) = Text.consPart c.toUpper (capitalWords (d :: rest)) := by
  rw [capitalWords, if_pos plain, if_pos]
  simpa using joined

private theorem capitalWords_cut {rest : List Char} (plain : c.isAlphanum = true)
    (divided : continues c d = false) :
    capitalWords (c :: d :: rest) = [c.toUpper] :: capitalWords (d :: rest) := by
  rw [capitalWords, if_pos plain, if_neg]
  simpa using divided

private theorem capitalWords_skip (other : ¬c.isAlphanum = true) (rest : List Char) :
    capitalWords (c :: rest) = capitalWords rest := by
  rw [capitalWords, if_neg other]

/-! One step of the reading, from a letter or digit `c` or from the underscore behind it. -/

private theorem push_continue (joined : continues c d = true) :
    Constant.push ⟨c.toUpper :: before, c.isLower || c.isDigit⟩ d =
      ⟨d.toUpper :: c.toUpper :: before, d.isLower || d.isDigit⟩ := by
  obtain ⟨plain, uncut⟩ := Bool.and_eq_true_iff.mp joined
  rw [Bool.not_eq_true'] at uncut
  simp [Constant.push, plain, uncut]

private theorem push_cut (plain : d.isAlphanum = true) (divided : continues c d = false) :
    Constant.push ⟨c.toUpper :: before, c.isLower || c.isDigit⟩ d =
      ⟨d.toUpper :: '_' :: c.toUpper :: before, d.isLower || d.isDigit⟩ := by
  have cut : (d.isUpper && (c.isLower || c.isDigit)) = true := by
    rwa [continues, plain, Bool.true_and, Bool.not_eq_false'] at divided
  simp [Constant.push, plain, cut]

private theorem push_end (plain : c.isAlphanum = true) (other : ¬d.isAlphanum = true) :
    Constant.push ⟨c.toUpper :: before, c.isLower || c.isDigit⟩ d =
      ⟨'_' :: c.toUpper :: before, false⟩ := by
  have letter := ne_underscore (isAlphanum_toUpper plain)
  rw [Constant.push, if_neg other]
  split
  · rename_i empty
    cases empty
  · rename_i same
    exact absurd (List.cons.inj same).1 letter
  · rfl

private theorem push_start (plain : d.isAlphanum = true) :
    Constant.push ⟨'_' :: before, false⟩ d =
      ⟨d.toUpper :: '_' :: before, d.isLower || d.isDigit⟩ := by
  simp [Constant.push, plain]

private theorem push_separator (other : ¬d.isAlphanum = true) :
    Constant.push ⟨'_' :: before, false⟩ d = ⟨'_' :: before, false⟩ := by
  simp [Constant.push, other]

/-- The whole reading, from a letter or digit or from the underscore behind it: what has been read
before stays in front of the words that follow. -/
theorem text_foldl_push (text : List Char) : ∀ (c : Char) (before : List Char),
    c.isAlphanum = true →
      (text.foldl Constant.push ⟨c.toUpper :: before, c.isLower || c.isDigit⟩).text =
          before.reverse ++ ['_'].intercalate (capitalWords (c :: text)) ∧
        (text.foldl Constant.push ⟨'_' :: c.toUpper :: before, false⟩).text =
          ['_'].intercalate ((c.toUpper :: before).reverse :: capitalWords text) := by
  induction text with
  | nil =>
      intro c before plain
      have letter := ne_underscore (isAlphanum_toUpper plain)
      constructor
      · simp [Constant.text, capitalWords, plain, letter, List.intercalate_singleton]
      · simp [Constant.text, capitalWords, letter, List.intercalate_singleton]
  | cons d text ih =>
      intro c before plain
      rw [List.foldl_cons, List.foldl_cons]
      by_cases alsoPlain : d.isAlphanum = true
      · have filled := capitalWords_ne_nil alsoPlain text
        have behind := (ih d ('_' :: c.toUpper :: before) alsoPlain).1
        constructor
        · cases divided : continues c d with
          | false =>
              rw [push_cut alsoPlain divided, behind, capitalWords_cut plain divided,
                List.intercalate_cons_of_ne_nil filled]
              simp
          | true =>
              rw [push_continue divided, (ih d (c.toUpper :: before) alsoPlain).1,
                capitalWords_continue plain divided, Text.intercalate_consPart filled]
              simp
        · rw [push_start alsoPlain, behind, List.intercalate_cons_of_ne_nil filled]
          simp
      · have divided : continues c d = false := by
          simp [continues, alsoPlain]
        have ended := (ih c before plain).2
        constructor
        · rw [push_end plain alsoPlain, ended, capitalWords_cut plain divided,
            capitalWords_skip alsoPlain]
          cases capitalWords text <;>
            simp [List.intercalate_singleton, List.intercalate_cons_cons]
        · rw [push_separator alsoPlain, ended, capitalWords_skip alsoPlain]

/-- **Constants.** The constant of a name consists of its words, divided by underscores. -/
theorem constantName_eq (name : String) :
    constantName name = String.ofList (['_'].intercalate (constantWords name)) := by
  change String.ofList (Constant.text (name.toList.foldl Constant.push {})) = _
  rw [constantWords]
  generalize name.toList = text
  congr 1
  -- Nothing is written before the first letter or digit.
  induction text with
  | nil => rfl
  | cons c text ih =>
      rw [List.foldl_cons]
      by_cases plain : c.isAlphanum = true
      · have first : Constant.push {} c = ⟨[c.toUpper], c.isLower || c.isDigit⟩ := by
          simp [Constant.push, plain]
        rw [first, (text_foldl_push text c [] plain).1]
        rfl
      · have skipped : Constant.push {} c = {} := by
          rw [Constant.push, if_neg plain]
        rw [skipped, ih, capitalWords_skip plain]

/-- A constant has letters, digits and underscores only. -/
theorem mem_constantName (inside : c ∈ (constantName name).toList) :
    c.isAlphanum = true ∨ c = '_' := by
  rw [constantName_eq, String.toList_ofList] at inside
  rcases Text.mem_intercalate inside with divides | ⟨word, listed, here⟩
  · exact .inr divides
  · exact .inl (isAlphanum_of_mem_capitalWords listed here)

private theorem underscore_notMem_of_constantWords (listed : word ∈ constantWords name) :
    '_' ∉ word := fun inside =>
  ne_underscore (isAlphanum_of_mem_capitalWords listed inside) rfl

private theorem intercalate_constantWords_eq_nil_iff :
    ['_'].intercalate (constantWords name) = [] ↔ constantWords name = [] := by
  constructor
  · intro empty
    by_contra filled
    have whole := List.splitOn_intercalate '_' (fun _ => underscore_notMem_of_constantWords) filled
    rw [empty, List.splitOn_nil] at whole
    have listed : [] ∈ constantWords name := whole ▸ List.mem_singleton_self []
    exact ne_nil_of_mem_capitalWords listed rfl
  · intro empty
    rw [empty, List.intercalate_nil]

/-- **Which names have one constant:** those that have the same words. -/
theorem constantName_eq_iff {first second : String} :
    constantName first = constantName second ↔ constantWords first = constantWords second := by
  rw [constantName_eq, constantName_eq, String.ofList_inj]
  constructor
  · intro same
    by_cases empty : constantWords first = []
    · rw [empty, List.intercalate_nil] at same
      rw [empty, intercalate_constantWords_eq_nil_iff.mp same.symm]
    · have alsoFilled : constantWords second ≠ [] := by
        rwa [Ne, ← intercalate_constantWords_eq_nil_iff, ← same, intercalate_constantWords_eq_nil_iff]
      rw [← List.splitOn_intercalate '_' (fun _ => underscore_notMem_of_constantWords) empty, same,
        List.splitOn_intercalate '_' (fun _ => underscore_notMem_of_constantWords) alsoFilled]
  · intro same
    rw [same]

private theorem constantWords_eq_nil_iff : constantWords name = [] ↔ letters name = [] := by
  rw [letters, ← flatten_capitalWords, List.flatten_eq_nil_iff]
  constructor
  · intro empty word listed
    rw [constantWords] at empty
    rw [empty] at listed
    cases listed
  · intro empty
    refine List.eq_nil_iff_forall_not_mem.mpr fun word listed => ?_
    exact ne_nil_of_mem_capitalWords listed (empty word listed)

/-- A name has no constant exactly if it has neither letters nor digits. -/
theorem constantName_eq_empty_iff : constantName name = "" ↔ letters name = [] := by
  have blank : constantName "" = "" := by decide
  rw [← blank, constantName_eq_iff, ← constantWords_eq_nil_iff]
  rfl

end Constants

end Naming

end Recordgen
