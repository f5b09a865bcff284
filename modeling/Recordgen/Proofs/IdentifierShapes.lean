import Recordgen.Proofs.NameLetters

/-! # The shapes of identifiers

Whatever a name is, its camel case consists of ASCII letters and digits and does not start with a
small letter, and its constant consists of words of capitals and digits with single underscores
between them (`IsConstant`). Camel case of camel case changes nothing. All three spellings keep the
ASCII letters and digits of the name and nothing else, apart from case and underscores
(`identifier_shapes`).
-/

namespace Recordgen.Naming

/-- A text in capitals, without its underscores. -/
def folded (text : String) : List Char :=
  (text.toList.filter (· ≠ '_')).map Char.toUpper

/-- A run of capitals and digits. -/
structure IsCapitalWord (word : List Char) : Prop where
  filled : word ≠ []
  capitals : ∀ c ∈ word, c.isUpper = true ∨ c.isDigit = true

/-- Any number of runs of capitals and digits, with an underscore between each two. -/
def IsConstant (text : List Char) : Prop :=
  ∃ words : List (List Char), (∀ word ∈ words, IsCapitalWord word) ∧ text = ['_'].intercalate words

section Camel

private theorem head?_capitalize (word : List Char) :
    (capitalize word).head? = word.head?.map Char.toUpper := by
  cases word <;> rfl

@[simp]
private theorem map_toUpper_uncapitalize (word : List Char) :
    (uncapitalize word).map Char.toUpper = word.map Char.toUpper := by
  cases word <;> simp [uncapitalize]

/-- A text of letters and digits is one word. -/
theorem upperCamelChars_of_plain {text : List Char} (plain : ∀ c ∈ text, c.isAlphanum = true) :
    upperCamelChars text = capitalize text := by
  cases text with
  | nil => rfl
  | cons c rest =>
      have whole : Text.splitWhere (fun c => !c.isAlphanum) (c :: rest) = [c :: rest] :=
        Text.splitWhere_of_none fun d inside => by simp [plain d inside]
      simp [upperCamelChars, words, whole]

private theorem isLower_of_mem_head?_upperCamel {name : String} {c : Char}
    (begins : c ∈ (upperCamel name).toList.head?) : c.isLower = false := by
  rw [upperCamel, String.toList_ofList, ← capitalize_upperCamelChars, head?_capitalize,
    Option.mem_def, Option.map_eq_some_iff] at begins
  obtain ⟨first, -, rfl⟩ := begins
  exact Char.isLower_toUpper_eq_false first

private theorem upperCamel_upperCamel (name : String) :
    upperCamel (upperCamel name) = upperCamel name := by
  have plain : ∀ c ∈ (upperCamel name).toList, c.isAlphanum = true := fun _ =>
    isAlphanum_of_mem_upperCamel
  rw [upperCamel, upperCamelChars_of_plain plain, upperCamel, String.toList_ofList,
    capitalize_upperCamelChars]

private theorem lowerCamel_lowerCamel (name : String) :
    lowerCamel (lowerCamel name) = lowerCamel name := by
  have plain : ∀ c ∈ (lowerCamel name).toList, c.isAlphanum = true := fun _ =>
    isAlphanum_of_mem_lowerCamel
  rw [lowerCamel, upperCamelChars_of_plain plain, lowerCamel, String.toList_ofList,
    capitalize_uncapitalize, capitalize_upperCamelChars]

private theorem letters_lowerCamel (name : String) : letters (lowerCamel name) = letters name := by
  rw [letters_of_plain fun _ => isAlphanum_of_mem_lowerCamel, lowerCamel, String.toList_ofList,
    map_toUpper_uncapitalize]
  exact map_toUpper_upperCamelChars _

end Camel

section Constants

private theorem isUpper_or_isDigit_toUpper {c : Char} (plain : c.isAlphanum = true) :
    c.toUpper.isUpper = true ∨ c.toUpper.isDigit = true := by
  have classes : ∀ d : Char, d.isAlphanum = (d.isUpper || d.isLower || d.isDigit) := fun _ => rfl
  have kept := isAlphanum_toUpper plain
  rwa [classes, Char.isLower_toUpper_eq_false, Bool.or_false, Bool.or_eq_true] at kept

private theorem isCapitalWord_of_mem_constantWords {name : String} {word : List Char}
    (listed : word ∈ constantWords name) : IsCapitalWord word where
  filled := ne_nil_of_mem_capitalWords listed
  capitals c inside := by
    have kept : c ∈ (capitalWords name.toList).flatten := List.mem_flatten.mpr ⟨word, listed, inside⟩
    rw [flatten_capitalWords] at kept
    obtain ⟨d, plain, rfl⟩ := List.mem_map.mp kept
    exact isUpper_or_isDigit_toUpper (List.mem_filter.mp plain).2

private theorem isConstant_constantName (name : String) : IsConstant (constantName name).toList :=
  ⟨constantWords name, fun _ => isCapitalWord_of_mem_constantWords, by
    rw [constantName_eq, String.toList_ofList]⟩

theorem IsCapitalWord.underscore_notMem {word : List Char} (capital : IsCapitalWord word) :
    '_' ∉ word := by
  intro inside
  rcases capital.capitals '_' inside with upper | digit
  · cases upper
  · cases digit

/-- An underscore stands between two words: not at an end, and not in front of another one. -/
theorem IsConstant.underscore {before behind : List Char}
    (constant : IsConstant (before ++ '_' :: behind)) :
    before ≠ [] ∧ behind ≠ [] ∧ behind.head? ≠ some '_' := by
  obtain ⟨words, capital, joined⟩ := constant
  have present : words ≠ [] := by
    rintro rfl
    rw [List.intercalate_nil] at joined
    exact List.append_ne_nil_of_right_ne_nil _ (List.cons_ne_nil _ _) joined
  -- Cutting at the underscores gives the words back, and none of them is empty.
  have cut : Text.splitAtChar '_' before ++ Text.splitAtChar '_' behind = words := by
    rw [← List.splitOn_intercalate '_' (fun word listed => (capital word listed).underscore_notMem)
      present, ← joined, ← Text.splitAtChar_eq_splitOn]
    exact (Text.splitWhere_append (by decide) before behind).symm
  have filled : [] ∉ Text.splitAtChar '_' before ++ Text.splitAtChar '_' behind := by
    rw [cut]
    exact fun listed => (capital [] listed).filled rfl
  rw [List.mem_append, not_or] at filled
  refine ⟨?_, ?_, fun again => ?_⟩
  · rintro rfl
    exact filled.1 List.mem_cons_self
  · rintro rfl
    exact filled.2 List.mem_cons_self
  · obtain ⟨rest, rfl⟩ := List.head?_eq_some_iff.mp again
    exact filled.2 List.mem_cons_self

/-- Without the underscores, the words of a constant stand side by side. -/
theorem filter_intercalate {words : List (List Char)}
    (plain : ∀ word ∈ words, ∀ c ∈ word, c.isAlphanum = true) :
    (['_'].intercalate words).filter Char.isAlphanum = words.flatten := by
  induction words with
  | nil => rfl
  | cons word words ih =>
      obtain ⟨here, later⟩ := List.forall_mem_cons.mp plain
      have kept : word.filter Char.isAlphanum = word := List.filter_eq_self.mpr here
      by_cases alone : words = []
      · simp [alone, List.intercalate_singleton, kept]
      · rw [List.intercalate_cons_of_ne_nil alone, List.filter_append, List.filter_append, kept, ih later,
          List.flatten_cons]
        simp

private theorem letters_constantName (name : String) :
    letters (constantName name) = letters name := by
  have plain : ∀ word ∈ constantWords name, ∀ c ∈ word, c.isAlphanum = true := fun _ listed _ =>
    isAlphanum_of_mem_capitalWords listed
  rw [letters, constantName_eq, String.toList_ofList, filter_intercalate plain, constantWords,
    flatten_capitalWords, List.map_map, letters]
  exact List.map_congr_left fun c _ => Char.toUpper_toUpper_eq_toUpper c

end Constants

private theorem folded_eq_letters {text : String}
    (spelled : ∀ c ∈ text.toList, c.isAlphanum = true ∨ c = '_') : folded text = letters text := by
  rw [folded, letters]
  refine congrArg (List.map Char.toUpper) (List.filter_congr fun c inside => ?_)
  rcases spelled c inside with plain | rfl
  · simp [plain, ne_underscore plain]
  · rfl

/-- **Identifiers.** The camel case of a name consists of ASCII letters and digits, does not start
with a small letter, and is its own camel case; so is the camel case that starts with a small letter.
The constant of a name consists of words of capitals and digits with an underscore between each two,
so no underscore stands at an end or next to another. Apart from case and underscores, all three are
the ASCII letters and digits of the name. -/
theorem identifier_shapes (name : String) :
    (∀ c ∈ (upperCamel name).toList, c.isAlphanum = true) ∧
    (∀ c ∈ (upperCamel name).toList.head?, c.isLower = false) ∧
    upperCamel (upperCamel name) = upperCamel name ∧
    lowerCamel (lowerCamel name) = lowerCamel name ∧
    IsConstant (constantName name).toList ∧
    (∀ before behind, (constantName name).toList = before ++ '_' :: behind →
      before ≠ [] ∧ behind ≠ [] ∧ behind.head? ≠ some '_') ∧
    folded (upperCamel name) = letters name ∧
    folded (lowerCamel name) = letters name ∧
    folded (constantName name) = letters name := by
  have constant := isConstant_constantName name
  refine ⟨fun _ => isAlphanum_of_mem_upperCamel, fun _ => isLower_of_mem_head?_upperCamel,
    upperCamel_upperCamel name, lowerCamel_lowerCamel name, constant, fun before behind cut => ?_,
    ?_, ?_, ?_⟩
  · exact (cut ▸ constant).underscore
  · rw [folded_eq_letters fun _ inside => .inl (isAlphanum_of_mem_upperCamel inside),
      letters_upperCamel]
  · rw [folded_eq_letters fun _ inside => .inl (isAlphanum_of_mem_lowerCamel inside),
      letters_lowerCamel]
  · rw [folded_eq_letters fun _ => mem_constantName, letters_constantName]

end Recordgen.Naming
