import Mathlib.Tactic.Common
import Recordgen.Json.Parser
import Recordgen.Json.Printer

/-! # Reading what was printed in JSON

A value that consists of strings, arrays and objects (`JsonValue.Textual`) is read back from its
text, whatever the strings hold (`JsonValue.parse?_pretty`). A reader is given at least as many steps
as the text has characters (`JsonValue.Reads`); every value, item and member that it enters takes a
character of its own, so the steps never run out.
-/

namespace Recordgen

namespace TextUnit

/-- The units that a string is cut into are read back as the string. -/
theorem toString?_ofString (text : String) : toString? (ofString text) = some text := by
  have read : ∀ chars : List Char, characters? (chars.map char) = some chars := by
    intro chars
    induction chars with
    | nil => rfl
    | cons c chars ih => rw [List.map_cons, characters?, ih, Option.map_some]
  rw [toString?, ofString, read, Option.map_some, String.ofList_toList]

end TextUnit

namespace JsonValue

variable {c : Char} {blanks text behind : List Char} {level steps : Nat} {value : JsonValue}
  {items : List JsonValue} {members : List (List TextUnit × JsonValue)}

/-- A value that consists of strings, arrays and objects. -/
inductive Textual : JsonValue → Prop
  | string (value : String) : Textual (.ofString value)
  | array (items : List JsonValue) (each : ∀ item ∈ items, Textual item) : Textual (.array items)
  | object (members : List (String × JsonValue)) (each : ∀ member ∈ members, Textual member.2) :
      Textual (.ofMembers members)

/-- A printed value is read back, behind blanks and whatever follows it. -/
def Reads (value : JsonValue) : Prop :=
  ∀ (level steps : Nat) (blanks rest : List Char), (∀ c ∈ blanks, isSpace c = true) →
    (print level value).length ≤ steps →
      readValue steps (blanks ++ (print level value ++ rest)) = some (value, rest)

/-! Texts. -/

private theorem readHex?_fourHexDigits {code : Nat} (small : code < 0x20) :
    Text.readHex? (Text.fourHexDigits code) = some code := by
  have all : ∀ code < 0x20, Text.readHex? (Text.fourHexDigits code) = some code := by decide
  exact all code small

private theorem ofCode_toNat (small : c.toNat < 0x20) : TextUnit.ofCode c.toNat = .char c := by
  have notFirst : TextUnit.isFirstHalf c.toNat = false := by
    simp only [TextUnit.isFirstHalf, Bool.and_eq_false_iff, decide_eq_false_iff_not]
    omega
  have notSecond : TextUnit.isSecondHalf c.toNat = false := by
    simp only [TextUnit.isSecondHalf, Bool.and_eq_false_iff, decide_eq_false_iff_not]
    omega
  rw [TextUnit.ofCode, notFirst, notSecond, Bool.or_false, if_neg Bool.false_ne_true,
    Char.ofNat_toNat]

/-- A printed character is read as one unit. -/
theorem readText_char (c : Char) (text : List Char) :
    readText ((TextUnit.char c).print ++ text) =
      (readText text).map fun (units, rest) => (.char c :: units, rest) := by
  by_cases special : c ∈ ['"', '\\', '\n', '\r', '\t', '\x08', '\x0c']
  · simp only [List.mem_cons, List.not_mem_nil, or_false] at special
    rcases special with rfl | rfl | rfl | rfl | rfl | rfl | rfl <;>
    · cases found : readText text <;> simp [TextUnit.print, readText, unescape?, found]
  · simp only [List.mem_cons, List.not_mem_nil, or_false, not_or] at special
    obtain ⟨quote, backslash, newline, carriage, tab, back, feed⟩ := special
    have spelled : (TextUnit.char c).print =
        if c.toNat < 0x20 then '\\' :: 'u' :: Text.fourHexDigits c.toNat else [c] := by
      rw [TextUnit.print] <;> assumption
    rw [spelled]
    by_cases control : c.toNat < 0x20
    · have code := readHex?_fourHexDigits control
      rw [Text.fourHexDigits, List.map_cons, List.map_cons, List.map_cons, List.map_cons,
        List.map_nil] at code
      rw [if_pos control]
      simp only [Text.fourHexDigits, List.map_cons, List.map_nil, List.cons_append,
        List.nil_append, readText, code, Option.bind_eq_bind, Option.bind_some,
        ofCode_toNat control]
      cases readText text <;> rfl
    · rw [if_neg control, List.singleton_append, readText, if_neg control]
      · cases readText text <;> rfl
      all_goals simp [quote, backslash]

private theorem readText_string (value : String) (rest : List Char) :
    readText ((TextUnit.ofString value).flatMap TextUnit.print ++ '"' :: rest) =
      some (TextUnit.ofString value, rest) := by
  rw [TextUnit.ofString]
  induction value.toList with
  | nil => rfl
  | cons c chars ih =>
      rw [List.map_cons, List.flatMap_cons, List.append_assoc, readText_char, ih, Option.map_some]

/-! Blanks. -/

private theorem skipSpace_append (blank : ∀ c ∈ blanks, isSpace c = true) :
    skipSpace (blanks ++ text) = skipSpace text :=
  List.dropWhile_append_of_pos blank

private theorem skipSpace_cons (solid : isSpace c = false) : skipSpace (c :: text) = c :: text := by
  rw [skipSpace, List.dropWhile_cons, solid, if_neg Bool.false_ne_true]

private theorem newLine_blank (level : Nat) : ∀ c ∈ newLine level, isSpace c = true := by
  intro c inside
  rcases List.mem_cons.mp inside with rfl | inside
  · rfl
  · rw [List.eq_of_mem_replicate inside]
    rfl

private theorem skipSpace_newLine (solid : isSpace c = false) :
    skipSpace (newLine level ++ c :: text) = c :: text := by
  rw [skipSpace_append (newLine_blank level), skipSpace_cons solid]

/-- A printed value begins with the mark of its sort. -/
theorem Textual.exists_head (textual : value.Textual) (level : Nat) :
    ∃ c tail, print level value = c :: tail ∧ isSpace c = false ∧ c ≠ ']' := by
  cases textual with
  | string value => exact ⟨'"', _, rfl, rfl, by decide⟩
  | array items each => cases items <;> exact ⟨'[', _, rfl, rfl, by decide⟩
  | object members each => cases members <;> exact ⟨'{', _, rfl, rfl, by decide⟩

/-! Items and members. -/

private theorem readItems_print {item : JsonValue} (each : ∀ value ∈ item :: items, value.Reads)
    {outer : Nat} {rest : List Char} (blank : ∀ c ∈ blanks, isSpace c = true)
    (enough : (print level item ++ printItems level items).length < steps) :
    readItems steps (blanks ++ (print level item ++
        (printItems level items ++ (newLine outer ++ ']' :: rest)))) =
      some (item :: items, rest) := by
  induction items generalizing item steps blanks with
  | nil =>
      obtain ⟨steps, rfl⟩ : ∃ left, steps = left + 1 := ⟨steps - 1, by omega⟩
      have room : (print level item).length ≤ steps := by
        rw [List.length_append] at enough
        omega
      have first := each item List.mem_cons_self level steps blanks
        (newLine outer ++ ']' :: rest) blank room
      rw [readItems, printItems, List.nil_append, first]
      simp [skipSpace_newLine (rfl : isSpace ']' = false)]
  | cons next items ih =>
      obtain ⟨steps, rfl⟩ : ∃ left, steps = left + 1 := ⟨steps - 1, by omega⟩
      have room : (print level item).length ≤ steps ∧
          (print level next ++ printItems level items).length < steps := by
        simp only [printItems, List.length_append, List.length_cons] at enough ⊢
        omega
      have first := each item List.mem_cons_self level steps blanks
        (printItems level (next :: items) ++ (newLine outer ++ ']' :: rest)) blank room.1
      have others := ih (fun value listed => each value (List.mem_cons_of_mem _ listed))
        (newLine_blank level) room.2
      rw [readItems, first]
      simp [printItems, skipSpace_cons (rfl : isSpace ',' = false), others]

/-- A member is read up to what follows its value. -/
theorem readMembers_member {name : String} (reads : value.Reads)
    (blank : ∀ c ∈ blanks, isSpace c = true) (enough : (print level value).length ≤ steps) :
    (∀ rest, skipSpace text = '}' :: rest →
      readMembers (steps + 1)
          (blanks ++ (printMember level (TextUnit.ofString name, value) ++ text)) =
        some ([(TextUnit.ofString name, value)], rest)) ∧
    ∀ rest members behind, skipSpace text = ',' :: rest →
      readMembers steps rest = some (members, behind) →
      readMembers (steps + 1)
          (blanks ++ (printMember level (TextUnit.ofString name, value) ++ text)) =
        some ((TextUnit.ofString name, value) :: members, behind) := by
  have space : ∀ c ∈ [' '], isSpace c = true := by simp [isSpace]
  have first := reads level steps [' '] text space enough
  have input : skipSpace
      (blanks ++ (printMember level (TextUnit.ofString name, value) ++ text)) =
        '"' :: ((TextUnit.ofString name).flatMap TextUnit.print ++
          '"' :: ':' :: ([' '] ++ (print level value ++ text))) := by
    rw [skipSpace_append blank, printMember, printText]
    simp only [List.cons_append, List.append_assoc, List.nil_append]
    exact skipSpace_cons rfl
  constructor
  · intro rest follows
    simp only [readMembers, input, readText_string, Option.bind_eq_bind, Option.bind_some,
      skipSpace_cons (rfl : isSpace ':' = false), first, follows]
    rfl
  · intro rest members behind follows onward
    simp only [readMembers, input, readText_string, Option.bind_eq_bind, Option.bind_some,
      skipSpace_cons (rfl : isSpace ':' = false), first, follows, onward]
    rfl

private theorem readMembers_print {member : List TextUnit × JsonValue}
    (each : ∀ entry ∈ member :: members, (∃ name, entry.1 = TextUnit.ofString name) ∧ entry.2.Reads)
    {outer : Nat} {rest : List Char} (blank : ∀ c ∈ blanks, isSpace c = true)
    (enough : (printMember level member ++ printMembers level members).length < steps) :
    readMembers steps (blanks ++ (printMember level member ++
        (printMembers level members ++ (newLine outer ++ '}' :: rest)))) =
      some (member :: members, rest) := by
  induction members generalizing member steps blanks with
  | nil =>
      obtain ⟨name, value⟩ := member
      obtain ⟨⟨name, rfl⟩, reads⟩ := each _ List.mem_cons_self
      obtain ⟨steps, rfl⟩ : ∃ left, steps = left + 1 := ⟨steps - 1, by omega⟩
      have room : (print level value).length ≤ steps := by
        simp only [printMember, List.length_append] at enough
        omega
      apply (readMembers_member reads blank room).1
      rw [printMembers, List.nil_append, skipSpace_newLine rfl]
  | cons next members ih =>
      obtain ⟨name, value⟩ := member
      obtain ⟨⟨name, rfl⟩, reads⟩ := each _ List.mem_cons_self
      obtain ⟨steps, rfl⟩ : ∃ left, steps = left + 1 := ⟨steps - 1, by omega⟩
      have room : (print level value).length ≤ steps ∧
          (printMember level next ++ printMembers level members).length < steps := by
        rw [printMember, printMembers] at enough
        simp only [List.length_append, List.length_cons] at enough ⊢
        omega
      have others := ih (fun entry listed => each entry (List.mem_cons_of_mem _ listed))
        (newLine_blank level) room.2
      refine (readMembers_member reads blank room.1).2 _ _ _ ?_ others
      rw [printMembers]
      simp only [List.cons_append, List.append_assoc]
      exact skipSpace_cons rfl

/-! Values. -/

private theorem reads_ofString (value : String) : (ofString value).Reads := by
  intro level steps blanks rest blank enough
  rw [ofString, print, printText] at enough ⊢
  obtain ⟨steps, rfl⟩ : ∃ left, steps = left + 1 := by
    rw [List.length_append, List.length_cons] at enough
    exact ⟨steps - 1, by omega⟩
  have start : skipSpace (blanks ++ ('"' :: (TextUnit.ofString value).flatMap TextUnit.print ++
      ['"'] ++ rest)) =
        '"' :: ((TextUnit.ofString value).flatMap TextUnit.print ++ '"' :: rest) := by
    rw [skipSpace_append blank]
    simp only [List.cons_append, List.append_assoc, List.nil_append]
    exact skipSpace_cons rfl
  simp only [readValue, start, readText_string, Option.map_some]

private theorem readValue_array {input inner : List Char} (start : skipSpace input = '[' :: inner)
    (inside : skipSpace inner = c :: text) (filled : c ≠ ']')
    (read : readItems steps (c :: text) = some (items, behind)) :
    readValue (steps + 1) input = some (array items, behind) := by
  simp only [readValue, start, inside]
  split
  · next same => exact absurd (List.cons.inj same).1 filled
  · rw [read, Option.map_some]

private theorem readValue_object {input inner : List Char} (start : skipSpace input = '{' :: inner)
    (inside : skipSpace inner = c :: text) (filled : c ≠ '}')
    (read : readMembers steps (c :: text) = some (members, behind)) :
    readValue (steps + 1) input = some (object members, behind) := by
  simp only [readValue, start, inside]
  split
  · next same => exact absurd (List.cons.inj same).1 filled
  · rw [read, Option.map_some]

/-- The start of an array or object that is not empty: its mark, a new line and the first entry. -/
theorem skipSpace_block {entry others : List Char} {mark last : Char}
    (blank : ∀ c ∈ blanks, isSpace c = true) (solid : isSpace mark = false) :
    skipSpace (blanks ++ (mark :: newLine (level + 1) ++ entry ++ others ++ newLine level ++
        [last] ++ behind)) =
      mark :: (newLine (level + 1) ++ (entry ++ (others ++ (newLine level ++ last :: behind)))) := by
  rw [skipSpace_append blank]
  simp only [List.cons_append, List.append_assoc, List.nil_append]
  exact skipSpace_cons solid

private theorem reads_array (textual : ∀ item ∈ items, item.Textual)
    (each : ∀ item ∈ items, item.Reads) :
    (array items).Reads := by
  intro level steps blanks rest blank enough
  cases items with
  | nil =>
      rw [print] at enough ⊢
      obtain ⟨steps, rfl⟩ : ∃ left, steps = left + 1 := ⟨steps - 1, by simp at enough; omega⟩
      have start : skipSpace (blanks ++ (['[', ']'] ++ rest)) = '[' :: ']' :: rest := by
        rw [skipSpace_append blank]
        exact skipSpace_cons rfl
      simp only [readValue, start, skipSpace_cons (rfl : isSpace ']' = false)]
  | cons item items =>
      rw [print] at enough ⊢
      simp only [List.length_append, List.length_cons] at enough
      obtain ⟨steps, rfl⟩ : ∃ left, steps = left + 1 := ⟨steps - 1, by omega⟩
      have read : readItems steps ([] ++ (print (level + 1) item ++ (printItems (level + 1) items ++
          (newLine level ++ ']' :: rest)))) = some (item :: items, rest) := by
        apply readItems_print each (List.forall_mem_nil _)
        rw [List.length_append]
        omega
      obtain ⟨c, tail, same, solid, filled⟩ :=
        (textual item List.mem_cons_self).exists_head (level + 1)
      rw [same, List.nil_append] at read
      apply readValue_array (skipSpace_block blank rfl) _ filled read
      rw [same]
      exact skipSpace_newLine solid

private theorem reads_object
    (each : ∀ entry ∈ members, (∃ name, entry.1 = TextUnit.ofString name) ∧ entry.2.Reads) :
    (object members).Reads := by
  intro level steps blanks rest blank enough
  cases members with
  | nil =>
      rw [print] at enough ⊢
      obtain ⟨steps, rfl⟩ : ∃ left, steps = left + 1 := ⟨steps - 1, by simp at enough; omega⟩
      have start : skipSpace (blanks ++ (['{', '}'] ++ rest)) = '{' :: '}' :: rest := by
        rw [skipSpace_append blank]
        exact skipSpace_cons rfl
      simp only [readValue, start, skipSpace_cons (rfl : isSpace '}' = false)]
  | cons member members =>
      rw [print] at enough ⊢
      simp only [List.length_append, List.length_cons] at enough
      obtain ⟨steps, rfl⟩ : ∃ left, steps = left + 1 := ⟨steps - 1, by omega⟩
      have read : readMembers steps ([] ++ (printMember (level + 1) member ++
          (printMembers (level + 1) members ++ (newLine level ++ '}' :: rest)))) =
            some (member :: members, rest) := by
        apply readMembers_print each (List.forall_mem_nil _)
        rw [List.length_append]
        omega
      obtain ⟨tail, same⟩ : ∃ tail, printMember (level + 1) member = '"' :: tail := by
        rw [printMember, printText]
        exact ⟨_, rfl⟩
      rw [same, List.nil_append] at read
      apply readValue_object (skipSpace_block blank rfl) _ (by decide) read
      rw [same]
      exact skipSpace_newLine rfl

/-- A textual value is read back from where it is printed. -/
theorem Textual.reads (textual : value.Textual) : value.Reads := by
  induction textual with
  | string value => exact reads_ofString value
  | array items each ih => exact reads_array each ih
  | object members each ih =>
      apply reads_object
      intro entry listed
      obtain ⟨member, inside, rfl⟩ := List.mem_map.mp listed
      exact ⟨⟨member.1, rfl⟩, ih member inside⟩

/-- The text of a textual value is read back. -/
theorem parse?_pretty (textual : value.Textual) : parse? value.pretty = some value := by
  have read := textual.reads 0 (2 * (print 0 value).length + 2) [] [] (List.forall_mem_nil _)
    (by omega)
  rw [List.nil_append, List.append_nil] at read
  rw [parse?, pretty, String.toList_ofList, String.length_ofList, read]
  rfl

end JsonValue

end Recordgen
