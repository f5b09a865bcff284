import Recordgen.Markup.Mark
import Recordgen.Markup.Printer
import Recordgen.Proofs.TextParts

/-! # Reading a written tag

A tag is written as a word, the name, and attributes with their values in double quotes. What is
written is read back: a value through its references (`unescape_escape`), the attributes one by one
(`readAttributes_written`), the name and the attributes together (`readTag_printTag`), and the end of
the tag at the first `>`, since no other one is written (`readContent_tag`). Words are texts
without the characters that divide the parts of a tag, so this covers names with a prefix and
namespace bindings, which are dropped.
-/

namespace Recordgen.Markup

variable {seen : List (List Char × Nat)} {attributes : List (String × String)} {text : List Char}

/-- The characters that divide the parts of a tag. -/
def tagMarks : List Char :=
  [' ', '\t', '\r', '\n', '=', '"', '\'', '>']

/-- A text that can stand as a name or a key in a tag. -/
def IsWord (text : List Char) : Prop :=
  text ≠ [] ∧ ∀ c ∈ text, c ∉ tagMarks

/-- Whether a key binds a namespace. -/
def isBinding (key : String) : Bool :=
  "xmlns".toList.isPrefixOf key.toList

section Marks

variable {c : Char} (plain : c ∉ tagMarks)

include plain

theorem isSpace_of_notMem_tagMarks : isSpace c = false := by
  simp only [tagMarks, List.mem_cons, List.not_mem_nil, or_false, not_or] at plain
  simp [isSpace, plain]

private theorem endsKey_of_notMem_tagMarks : endsKey c = false := by
  have solid := isSpace_of_notMem_tagMarks plain
  simp only [tagMarks, List.mem_cons, List.not_mem_nil, or_false, not_or] at plain
  simp [endsKey, solid, plain]

end Marks

/-! Attribute values. -/

private theorem unescapeFrom_taken (total offset : Nat) (text rest : List Char) :
    unescapeFrom total offset text.length (text ++ rest) =
      unescapeFrom total (offset + Text.byteSize text) 0 rest := by
  induction text generalizing offset with
  | nil => simp
  | cons c text ih =>
      rw [List.length_cons, List.cons_append, unescapeFrom, ih, Text.byteSize_cons, Nat.add_assoc]

/-- A reference is replaced by its character. -/
theorem unescapeFrom_reference {name : List Char} {c : Char}
    (inside : ∀ d ∈ name, d ≠ '&' ∧ d ≠ ';')
    (known : ∀ offset, referencedCharacter offset name = .ok c) (total offset : Nat)
    (rest : List Char) :
    ∃ later, unescapeFrom total offset 0 ('&' :: (name ++ ';' :: rest)) =
      (unescapeFrom total later 0 rest).map (c :: ·) := by
  have all : ∀ d ∈ name, (d ≠ '&' && d ≠ ';') = true := by simpa using inside
  have taken := unescapeFrom_taken total (offset + '&'.utf8Size) (name ++ [';']) rest
  rw [List.length_append, List.length_singleton, List.append_assoc, List.singleton_append] at taken
  refine ⟨offset + '&'.utf8Size + Text.byteSize (name ++ [';']), ?_⟩
  have ends : (';' ≠ '&' && ';' ≠ ';') = false := by decide
  rw [unescapeFrom, if_pos rfl]
  simp only [Text.takeWhile_run all ends, Text.dropWhile_run all ends, known, taken]
  cases unescapeFrom total (offset + '&'.utf8Size + Text.byteSize (name ++ [';'])) 0 rest <;> rfl

/-- A character is written as itself or as a reference by a name of letters. -/
theorem escapeChar_cases (c : Char) :
    (escapeChar c = [c] ∧ c ∉ ['&', '"', '>']) ∨
      ∃ name, escapeChar c = '&' :: (name ++ [';']) ∧ name.all Char.isAlpha = true ∧
        ∀ offset, referencedCharacter offset name = .ok c := by
  unfold escapeChar
  split_ifs with ampersand less greater quote apostrophe
  · subst ampersand
    exact .inr ⟨"amp".toList, rfl, rfl, fun _ => rfl⟩
  · subst less
    exact .inr ⟨"lt".toList, rfl, rfl, fun _ => rfl⟩
  · subst greater
    exact .inr ⟨"gt".toList, rfl, rfl, fun _ => rfl⟩
  · subst quote
    exact .inr ⟨"quot".toList, rfl, rfl, fun _ => rfl⟩
  · subst apostrophe
    exact .inr ⟨"apos".toList, rfl, rfl, fun _ => rfl⟩
  · exact .inl ⟨rfl, by simp [ampersand, quote, greater]⟩

/-- A letter is none of the characters that end a reference, a value or a tag. -/
theorem ne_of_isAlpha {c : Char} (letter : c.isAlpha = true) :
    c ≠ '&' ∧ c ≠ ';' ∧ c ≠ '"' ∧ c ≠ '>' := by
  refine ⟨?_, ?_, ?_, ?_⟩ <;> rintro rfl <;> exact absurd letter (by decide)

/-- A written character is read back. -/
theorem unescapeFrom_escapeChar (total offset : Nat) (c : Char) (rest : List Char) :
    ∃ later, unescapeFrom total offset 0 (escapeChar c ++ rest) =
      (unescapeFrom total later 0 rest).map (c :: ·) := by
  rcases escapeChar_cases c with ⟨same, plain⟩ | ⟨name, same, letters, known⟩
  · refine ⟨offset + c.utf8Size, ?_⟩
    rw [same, List.singleton_append, unescapeFrom, if_neg (by simp_all)]
  · have inside : ∀ d ∈ name, d ≠ '&' ∧ d ≠ ';' := fun d listed =>
      have apart := ne_of_isAlpha (List.all_eq_true.mp letters d listed)
      ⟨apart.1, apart.2.1⟩
    obtain ⟨later, step⟩ := unescapeFrom_reference inside known total offset rest
    refine ⟨later, ?_⟩
    rw [same, List.cons_append, List.append_assoc, List.singleton_append, step]

/-- A written value is read back. -/
theorem unescape_escape (value : List Char) : unescape (escape value) = .ok value := by
  have read : ∀ total offset, unescapeFrom total offset 0 (escape value) = .ok value := by
    intro total
    induction value with
    | nil => intro offset; rfl
    | cons c value ih =>
        intro offset
        obtain ⟨later, step⟩ := unescapeFrom_escapeChar total offset c (escape value)
        rw [escape, List.flatMap_cons, ← escape, step, ih later]
        rfl
  exact read _ 0

/-- A written value neither ends a quote nor closes a tag. -/
theorem ne_of_mem_escape {value : List Char} {c : Char} (inside : c ∈ escape value) :
    c ≠ '"' ∧ c ≠ '>' := by
  obtain ⟨original, -, spelled⟩ := List.mem_flatMap.mp inside
  rcases escapeChar_cases original with ⟨same, plain⟩ | ⟨name, same, letters, -⟩
  · rw [same, List.mem_singleton] at spelled
    subst spelled
    simp_all
  · rw [same, List.mem_cons, List.mem_append, List.mem_singleton] at spelled
    rcases spelled with rfl | listed | rfl
    · decide
    · exact (ne_of_isAlpha (List.all_eq_true.mp letters c listed)).2.2
    · decide

/-! Attributes. -/

/-- The attribute at the front of a text is read as it was written. -/
theorem readAttribute_written {first : Char} {key : List Char} (word : IsWord (first :: key))
    (fresh : seen.lookup (first :: key) = none) (position : Nat) (value rest : List Char) :
    readAttribute seen position first (key ++ '=' :: '"' :: (escape value ++ '"' :: rest)) =
      .ok ⟨first :: key, escape value, (first :: key).length + (escape value).length + 3⟩ := by
  have letters : ∀ c ∈ key, (!endsKey c) = true := fun c inside => by
    simp [endsKey_of_notMem_tagMarks (word.2 c (List.mem_cons_of_mem _ inside))]
  have unquoted : ∀ c ∈ escape value, decide (c ≠ '"') = true := fun c inside => by
    simp [(ne_of_mem_escape inside).1]
  have ends : (!endsKey '=') = false := by decide
  have closes : decide ('"' ≠ '"') = false := by decide
  have solid : isSpace '=' = false ∧ isSpace '"' = false := by decide
  simp only [readAttribute, Text.takeWhile_run letters ends, Text.dropWhile_run letters ends,
    List.takeWhile_cons, List.dropWhile_cons, solid, Bool.false_eq_true, if_false, fresh, true_or,
    if_true, Text.takeWhile_run unquoted closes, Text.dropWhile_run unquoted closes, List.length_nil,
    Nat.add_zero]

private theorem readAttributes_taken (element : String) (seen : List (List Char × Nat))
    (position : Nat) (text rest : List Char) :
    readAttributes element seen position text.length (text ++ rest) =
      readAttributes element seen (position + Text.byteSize text) 0 rest := by
  induction text generalizing position with
  | nil => simp
  | cons c text ih =>
      rw [List.length_cons, List.cons_append, readAttributes, ih, Text.byteSize_cons, Nat.add_assoc]

/-- The attributes that an element keeps of those written in its tag. -/
def keptAttributes (attributes : List (String × String)) : List (String × String) :=
  attributes.filter fun pair => !isBinding pair.1

/-- A key that an element can keep, or a namespace binding. -/
structure IsKey (key : String) : Prop where
  word : IsWord key.toList
  plain : isBinding key = false → ':' ∉ key.toList

/-- A name without a qualifier is its own local name. -/
theorem localName_of_notMem {name : List Char} (plain : ':' ∉ name) : localName name = name := by
  have none : name.dropWhile (· ≠ ':') = [] := by
    rw [List.dropWhile_eq_nil_iff]
    intro c inside
    simp only [decide_eq_true_eq]
    exact fun same => plain (same ▸ inside)
  rw [localName, none]

/-- An attribute is kept as it was written, unless it binds a namespace. -/
theorem entry_written {key : String} (valid : IsKey key) (element value : String) (length : Nat) :
    RawAttribute.entry element ⟨key.toList, escape value.toList, length⟩ =
      .ok (keptAttributes [(key, value)]) := by
  have binding : "xmlns".toList.isPrefixOf key.toList = isBinding key := rfl
  cases binds : isBinding key with
  | true => simp only [RawAttribute.entry, binding, binds, if_true, keptAttributes,
      List.filter_cons, Bool.not_true, Bool.false_eq_true, if_false, List.filter_nil]
  | false =>
      have bare := localName_of_notMem (valid.plain binds)
      simp only [RawAttribute.entry, binding, binds, Bool.false_eq_true, if_false, bare,
        unescape_escape, keptAttributes, List.filter_cons, Bool.not_false, if_true,
        List.filter_nil, String.ofList_toList]

/-- A written attribute is read, and the reader goes on behind it. -/
theorem readAttributes_attribute (element : String) (position : Nat) {key : String}
    (valid : IsKey key) (fresh : seen.lookup key.toList = none) (value : String)
    (rest : List Char) :
    ∃ here later,
      readAttributes element seen position 0 (printAttribute (key, value) ++ rest) =
        (readAttributes element ((key.toList, here) :: seen) later 0 rest).map
          (keptAttributes [(key, value)] ++ ·) := by
  have entry := entry_written valid element value
  have word := valid.word
  cases spelled : key.toList with
  | nil => exact absurd spelled word.1
  | cons first tail =>
      rw [spelled] at word entry fresh
      have solid : isSpace first = false :=
        isSpace_of_notMem_tagMarks (word.2 first List.mem_cons_self)
      have text : printAttribute (key, value) ++ rest =
          ' ' :: first :: (tail ++ '=' :: '"' :: (escape value.toList ++ '"' :: rest)) := by
        simp [printAttribute, spelled]
      have read := readAttribute_written word fresh (position + ' '.utf8Size) value.toList rest
      have text_taken : tail ++ '=' :: '"' :: (escape value.toList ++ '"' :: rest) =
          tail ++ '=' :: '"' :: (escape value.toList ++ ['"']) ++ rest := by
        simp
      have length_taken : (first :: tail).length + (escape value.toList).length + 3 - 1 =
          (tail ++ '=' :: '"' :: (escape value.toList ++ ['"'])).length := by
        simp only [List.length_append, List.length_cons, List.length_nil]
        omega
      refine ⟨position + ' '.utf8Size, position + ' '.utf8Size + first.utf8Size +
        Text.byteSize (tail ++ '=' :: '"' :: (escape value.toList ++ ['"'])), ?_⟩
      rw [text, readAttributes, if_pos (by decide), readAttributes, if_neg (by simp [solid]), read]
      simp only [entry, length_taken]
      rw [text_taken, readAttributes_taken]
      cases readAttributes element ((first :: tail, position + ' '.utf8Size) :: seen) _ 0 rest <;>
        rfl

/-- Written attributes are read back in order, without the namespace bindings. -/
theorem readAttributes_written (element : String) (position : Nat)
    (valid : ∀ pair ∈ attributes, IsKey pair.1) (distinct : (attributes.map Prod.fst).Nodup)
    (fresh : ∀ pair ∈ attributes, seen.lookup pair.1.toList = none) :
    readAttributes element seen position 0 (attributes.flatMap printAttribute) =
      .ok (keptAttributes attributes) := by
  induction attributes generalizing seen position with
  | nil => rfl
  | cons pair attributes ih =>
      obtain ⟨key, value⟩ := pair
      obtain ⟨unlisted, distinct⟩ := List.nodup_cons.mp distinct
      obtain ⟨here, later, step⟩ := readAttributes_attribute element position
        (valid (key, value) List.mem_cons_self) (fresh (key, value) List.mem_cons_self) value
        (attributes.flatMap printAttribute)
      have others : readAttributes element ((key.toList, here) :: seen) later 0
          (attributes.flatMap printAttribute) = .ok (keptAttributes attributes) := by
        apply ih later (fun pair listed => valid pair (List.mem_cons_of_mem _ listed)) distinct
        intro pair listed
        have other : (pair.1.toList == key.toList) = false := by
          rw [beq_eq_false_iff_ne]
          intro same
          apply unlisted
          rw [← String.toList_inj.mp same]
          exact List.mem_map.mpr ⟨pair, listed, rfl⟩
        rw [List.lookup_cons, other]
        exact fresh pair (List.mem_cons_of_mem _ listed)
      rw [List.flatMap_cons, step, others]
      exact congrArg Except.ok (List.filter_append [(key, value)] attributes).symm

/-! Tags. -/

/-- What a tag needs so that it is read back: a name without a space, and keys that are words and
differ. -/
structure IsTag (name : String) (attributes : List (String × String)) : Prop where
  name : IsWord name.toList
  keys : ∀ pair ∈ attributes, IsKey pair.1
  distinct : (attributes.map Prod.fst).Nodup

/-- The attributes of a tag are empty or begin with a space. -/
theorem flatMap_printAttribute_cases (attributes : List (String × String)) :
    attributes.flatMap printAttribute = [] ∨
      ∃ rest, attributes.flatMap printAttribute = ' ' :: rest := by
  cases attributes with
  | nil => exact .inl rfl
  | cons pair attributes => exact .inr ⟨_, rfl⟩

/-- The name of a tag that is printed is read back. -/
theorem tagName_printTag {name : String} (word : IsWord name.toList)
    (attributes : List (String × String)) : tagName (printTag name attributes) = name.toList := by
  have solid : ∀ c ∈ name.toList, (!isSpace c) = true := fun c inside => by
    simp [isSpace_of_notMem_tagMarks (word.2 c inside)]
  rcases flatMap_printAttribute_cases attributes with none | ⟨rest, some⟩
  · rw [tagName, printTag, none, List.append_nil, List.takeWhile_eq_self_iff.mpr solid]
  · rw [tagName, printTag, some, Text.takeWhile_run solid (by decide)]

/-- A written tag is read back, without the qualifier of its name and without bindings. -/
theorem readTag_printTag {name : String} (valid : IsTag name attributes) :
    readTag (printTag name attributes) =
      .ok ⟨String.ofList (localName name.toList), keptAttributes attributes⟩ := by
  have read := readAttributes_written (String.ofList (localName name.toList))
    (Text.byteSize name.toList) valid.keys valid.distinct (fun _ _ => List.lookup_nil)
  simp only [readTag, tagName_printTag valid.name]
  rw [printTag, List.drop_left, read]
  rfl

/-! The end of a mark. -/

/-- Text without a `>` does not close a mark. -/
theorem ClosingRule.close?_append {State : Type} (rule : ClosingRule State) (index : Nat)
    (state : State) (inside : '>' ∉ text) (rest : List Char) :
    rule.close? index state (text ++ rest) =
      rule.close? (index + text.length) (text.foldl rule.step state) rest := by
  induction text generalizing index state with
  | nil => rfl
  | cons c text ih =>
      obtain ⟨other, inside⟩ := not_or.mp (List.mem_cons.not.mp inside)
      have open_at : (decide (c = '>') && rule.closes state) = false := by
        simp [Ne.symm other]
      rw [List.cons_append, ClosingRule.close?, open_at, if_neg (by simp), ih _ _ inside,
        List.length_cons, List.foldl_cons, Nat.add_assoc, Nat.add_comm 1]

/-- A text that can stand between `<` and `>`: it holds no `>`, and its quotes are closed. -/
structure IsContent (text : List Char) : Prop where
  inside : '>' ∉ text
  closed : text.foldl tagRule.step none = none

namespace IsContent

theorem append {first second : List Char} (left : IsContent first) (right : IsContent second) :
    IsContent (first ++ second) where
  inside := by simp [left.inside, right.inside]
  closed := by rw [List.foldl_append, left.closed, right.closed]

theorem of_unquoted {text : List Char} (plain : ∀ c ∈ text, c ≠ '"' ∧ c ≠ '\'' ∧ c ≠ '>') :
    IsContent text where
  inside listed := (plain '>' listed).2.2 rfl
  closed := by
    induction text with
    | nil => rfl
    | cons c text ih =>
        obtain ⟨double, single, -⟩ := plain c List.mem_cons_self
        have step : tagRule.step none c = none := by simp [tagRule, double, single]
        rw [List.foldl_cons, step]
        exact ih fun d inside => plain d (List.mem_cons_of_mem _ inside)

theorem of_isWord {text : List Char} (word : IsWord text) : IsContent text := by
  apply of_unquoted
  intro c inside
  have plain := word.2 c inside
  simp only [tagMarks, List.mem_cons, List.not_mem_nil, or_false, not_or] at plain
  exact ⟨plain.2.2.2.2.2.1, plain.2.2.2.2.2.2.1, plain.2.2.2.2.2.2.2⟩

/-- A value in double quotes. -/
theorem quoted (value : List Char) : IsContent ('"' :: (escape value ++ ['"'])) where
  inside listed := by
    simp only [List.mem_cons, List.mem_append, List.not_mem_nil, or_false, Char.reduceEq, false_or,
      or_false] at listed
    exact (ne_of_mem_escape listed).2 rfl
  closed := by
    have opened : ∀ text : List Char, (∀ c ∈ text, c ≠ '"') →
        text.foldl tagRule.step (some '"') = some '"' := by
      intro text unquoted
      induction text with
      | nil => rfl
      | cons c text ih =>
          have step : tagRule.step (some '"') c = some '"' := by
            simp [tagRule, unquoted c List.mem_cons_self]
          rw [List.foldl_cons, step]
          exact ih fun d inside => unquoted d (List.mem_cons_of_mem _ inside)
    have start : tagRule.step none '"' = some '"' := rfl
    rw [List.foldl_cons, start, List.foldl_append,
      opened _ fun c inside => (ne_of_mem_escape inside).1]
    rfl

theorem printAttribute {key : String} (word : IsWord key.toList) (value : String) :
    IsContent (printAttribute (key, value)) := by
  have parts : Markup.printAttribute (key, value) =
      [' '] ++ (key.toList ++ (['='] ++ '"' :: (escape value.toList ++ ['"']))) := by
    simp [Markup.printAttribute]
  rw [parts]
  apply append (of_unquoted (by simp))
  apply append (of_isWord word)
  exact append (of_unquoted (by simp)) (quoted value.toList)

theorem printTag {name : String} {attributes : List (String × String)}
    (valid : IsTag name attributes) : IsContent (printTag name attributes) := by
  apply append (of_isWord valid.name)
  have keys := valid.keys
  clear valid
  induction attributes with
  | nil => exact of_unquoted (by simp)
  | cons pair attributes ih =>
      rw [List.flatMap_cons]
      apply append (printAttribute (keys pair List.mem_cons_self).word pair.2)
      exact ih fun other listed => keys other (List.mem_cons_of_mem _ listed)

end IsContent

/-- The content of a tag is read up to the `>` behind it. -/
theorem readContent_tag (content : IsContent text) (rest : List Char) :
    readContent tagRule .tagNotClosed (text ++ '>' :: rest) = .ok text := by
  have index : tagRule.close? 0 none (text ++ '>' :: rest) = some text.length := by
    rw [ClosingRule.close?_append tagRule 0 none content.inside, content.closed, Nat.zero_add]
    rfl
  have start : tagRule.start = none := rfl
  rw [readContent, start, index]
  exact congrArg Except.ok (List.take_left' rfl)

/-- A mark that begins like a name is a start tag. -/
theorem readMark_startTag {first : Char} (content : IsContent (first :: text))
    (plain : first ≠ '!' ∧ first ≠ '?' ∧ first ≠ '/') (rest : List Char) :
    readMark (first :: text ++ '>' :: rest) =
      .ok (.startTag (first :: text), (first :: text).length + 1) := by
  obtain ⟨declaration, instruction, slash⟩ := plain
  have read := readContent_tag content rest
  rw [readMark, read]
  · rfl
  all_goals
    intro tail same
    simp_all

/-- A mark that begins with a slash is an end tag. -/
theorem readMark_endTag (content : IsContent text) (rest : List Char) :
    readMark ('/' :: text ++ '>' :: rest) = .ok (.endTag text, text.length + 2) := by
  have read := readContent_tag (IsContent.append (IsContent.of_unquoted
    (show ∀ c ∈ ['/'], c ≠ '"' ∧ c ≠ '\'' ∧ c ≠ '>' by simp)) content) rest
  rw [List.singleton_append, List.cons_append] at read
  rw [List.cons_append, readMark, read]
  rfl

end Recordgen.Markup
