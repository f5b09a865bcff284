import Mathlib.Data.List.DropRight
import Mathlib.Data.List.TakeWhile
import Mathlib.Data.String.Basic
import Recordgen.Text.Blank
import Recordgen.Text.Split

/-! # How texts are cut, trimmed and joined

Facts about texts that readers of all sorts use. A text is cut at its separators and the parts hold
everything else (`splitWhere_append`, `flatten_splitWhere`), a run of characters goes up to the first
one that ends it (`takeWhile_run`), a text with a known start and ending is read by what stands between
them (`between?_eq_some_iff`), and trimming leaves no blanks at the ends (`isTrimmed_trimChars`).
-/

namespace Recordgen.Text

variable {c : Char} {parts : List (List Char)} {isSeparator : Char → Bool} {text : List Char}
  {start ending : String}

/-! Cutting at separators. -/

theorem splitWhere_ne_nil (isSeparator : Char → Bool) (text : List Char) :
    splitWhere isSeparator text ≠ [] := by
  cases text with
  | nil => exact List.cons_ne_nil _ _
  | cons c rest =>
      rw [splitWhere]
      split
      · exact List.cons_ne_nil _ _
      · cases splitWhere isSeparator rest <;> exact List.cons_ne_nil _ _

private theorem consPart_append (filled : parts ≠ []) (more : List (List Char)) :
    consPart c (parts ++ more) = consPart c parts ++ more := by
  cases parts with
  | nil => exact absurd rfl filled
  | cons part parts => rfl

/-- A separator cuts a text in two. -/
theorem splitWhere_append (separates : isSeparator c = true) (before behind : List Char) :
    splitWhere isSeparator (before ++ c :: behind) =
      splitWhere isSeparator before ++ splitWhere isSeparator behind := by
  induction before with
  | nil =>
      change splitWhere isSeparator (c :: behind) = [] :: splitWhere isSeparator behind
      rw [splitWhere, if_pos separates]
  | cons d before ih =>
      rw [List.cons_append, splitWhere, splitWhere, ih]
      split
      · rfl
      · exact consPart_append (splitWhere_ne_nil _ _) _

/-- A text without separators is one part. -/
theorem splitWhere_of_none (none : ∀ c ∈ text, isSeparator c = false) :
    splitWhere isSeparator text = [text] := by
  induction text with
  | nil => rfl
  | cons c text ih =>
      obtain ⟨here, later⟩ := List.forall_mem_cons.mp none
      rw [splitWhere, here, ih later]
      rfl

/-- The parts hold no separators, and nothing that is not in the text. -/
theorem mem_of_mem_splitWhere {part : List Char} (member : part ∈ splitWhere isSeparator text)
    (inside : c ∈ part) : c ∈ text ∧ isSeparator c = false := by
  induction text generalizing part with
  | nil =>
      rw [List.mem_singleton.mp member] at inside
      cases inside
  | cons d text ih =>
      rw [splitWhere] at member
      split at member
      · rcases List.mem_cons.mp member with rfl | later
        · cases inside
        · exact (ih later inside).imp_left (List.mem_cons_of_mem _)
      · rename_i kept
        cases found : splitWhere isSeparator text with
        | nil => exact absurd found (splitWhere_ne_nil _ _)
        | cons first rest =>
            rw [found] at ih member
            rcases List.mem_cons.mp member with rfl | later
            · rcases List.mem_cons.mp inside with rfl | inside
              · exact ⟨List.mem_cons_self, Bool.eq_false_iff.mpr kept⟩
              · exact (ih List.mem_cons_self inside).imp_left (List.mem_cons_of_mem _)
            · exact (ih (List.mem_cons_of_mem _ later) inside).imp_left (List.mem_cons_of_mem _)

/-- Two spellings of a text are cut in the same place by the last separator. -/
theorem append_cons_inj {separator : Char} {first second start finish : List Char}
    (last : separator ∉ start) (alsoLast : separator ∉ finish)
    (same : first ++ separator :: start = second ++ separator :: finish) :
    first = second ∧ start = finish := by
  rcases List.append_eq_append_iff.mp same with ⟨middle, rfl, rest⟩ | ⟨middle, rfl, rest⟩
  · cases middle with
    | nil => exact ⟨(List.append_nil _).symm, (List.cons.inj rest).2⟩
    | cons c middle =>
        obtain ⟨-, rfl⟩ := List.cons.inj rest
        exact absurd (by simp) last
  · cases middle with
    | nil => exact ⟨List.append_nil _, (List.cons.inj rest).2.symm⟩
    | cons c middle =>
        obtain ⟨-, rfl⟩ := List.cons.inj rest
        exact absurd (by simp) alsoLast

/-- The parts of a text hold everything but the separators. -/
theorem flatten_splitWhere (isSeparator : Char → Bool) (text : List Char) :
    (splitWhere isSeparator text).flatten = text.filter fun c => !isSeparator c := by
  induction text with
  | nil => rfl
  | cons c text ih =>
      rw [splitWhere]
      by_cases separates : isSeparator c = true
      · rw [if_pos separates, List.flatten_cons, ih]
        simp [separates]
      · rw [if_neg separates]
        cases found : splitWhere isSeparator text with
        | nil => exact absurd found (splitWhere_ne_nil _ _)
        | cons part parts =>
            rw [found, List.flatten_cons] at ih
            simp [consPart, separates, ih]

theorem flatten_consPart (c : Char) (parts : List (List Char)) :
    (consPart c parts).flatten = c :: parts.flatten := by
  cases parts <;> rfl

/-- Splitting at a character is splitting as the library has it. -/
theorem splitAtChar_eq_splitOn (separator : Char) (text : List Char) :
    splitAtChar separator text = text.splitOn separator := by
  rw [splitAtChar]
  induction text with
  | nil => rfl
  | cons c rest ih =>
      rw [splitWhere, ih, List.splitOn_cons_eq_if_modifyHead]
      by_cases separates : c = separator
      · simp [separates]
      · cases parts : rest.splitOn separator with
        | nil => exact absurd parts (List.splitOn_ne_nil _ _)
        | cons part others => simp [separates, consPart]

/-! Joining. -/

/-- A character joined to the first part comes first in the whole. -/
theorem intercalate_consPart {separator : List Char} (filled : parts ≠ []) (c : Char) :
    separator.intercalate (consPart c parts) = c :: separator.intercalate parts := by
  cases parts with
  | nil => exact absurd rfl filled
  | cons part parts =>
      cases parts <;> simp [consPart, List.intercalate_cons_cons, List.intercalate_singleton]

/-- What stands in the joined text is in a part or is the separator. -/
theorem mem_intercalate {separator : Char} (inside : c ∈ [separator].intercalate parts) :
    c = separator ∨ ∃ part ∈ parts, c ∈ part := by
  induction parts with
  | nil => cases inside
  | cons part parts ih =>
      cases parts with
      | nil => exact .inr ⟨part, List.mem_cons_self, by simpa using inside⟩
      | cons next parts =>
          rw [List.intercalate_cons_cons, List.append_assoc, List.mem_append, List.mem_append,
            List.mem_singleton] at inside
          rcases inside with here | same | later
          · exact .inr ⟨part, List.mem_cons_self, here⟩
          · exact .inl same
          · exact (ih later).imp_right fun ⟨part, listed, found⟩ =>
              ⟨part, List.mem_cons_of_mem _ listed, found⟩

/-! Runs of characters. -/

section Runs

variable {continues : Char → Bool} {inside rest : List Char} {stop : Char}
  (all : ∀ c ∈ inside, continues c = true) (ends : continues stop = false)

include all ends

/-- A run of characters ends where the first other one stands. -/
theorem takeWhile_run : (inside ++ stop :: rest).takeWhile continues = inside := by
  rw [List.takeWhile_append_of_pos all, List.takeWhile_cons_of_neg (by simp [ends]),
    List.append_nil]

theorem dropWhile_run : (inside ++ stop :: rest).dropWhile continues = stop :: rest := by
  rw [List.dropWhile_append_of_pos all, List.dropWhile_cons_of_neg (by simp [ends])]

end Runs

/-! Starts and endings. -/

theorem afterStart?_eq_some_iff {start rest : List Char} :
    afterStart? start text = some rest ↔ text = start ++ rest := by
  induction start generalizing text with
  | nil => simp [afterStart?, eq_comm]
  | cons c start ih =>
      cases text with
      | nil => simp [afterStart?]
      | cons d text =>
          by_cases same : c = d
          · simp [afterStart?, same, ih]
          · simp [afterStart?, same, Ne.symm same]

theorem beforeEnding?_eq_some_iff {ending rest : List Char} :
    beforeEnding? ending text = some rest ↔ text = rest ++ ending := by
  rw [beforeEnding?, Option.map_eq_some_iff]
  constructor
  · rintro ⟨reversed, found, rfl⟩
    rw [afterStart?_eq_some_iff] at found
    simpa using congrArg List.reverse found
  · rintro rfl
    exact ⟨rest.reverse, by simp [afterStart?_eq_some_iff], by simp⟩

/-- What stands between a start and an ending. -/
def between? (start ending : String) (text : String) : Option String :=
  ((afterStart? start.toList text.toList).bind (beforeEnding? ending.toList)).map String.ofList

/-- What stands between is all but the start and the ending. -/
theorem between?_eq_some_iff {text middle : String} :
    between? start ending text = some middle ↔ text = start ++ middle ++ ending := by
  simp only [between?, Option.map_eq_some_iff, Option.bind_eq_some_iff, afterStart?_eq_some_iff,
    beforeEnding?_eq_some_iff]
  constructor
  · rintro ⟨_, ⟨_, whole, rfl⟩, rfl⟩
    apply String.toList_inj.mp
    simp [whole]
  · rintro rfl
    exact ⟨middle.toList, ⟨_, by simp, rfl⟩, by simp⟩

/-- Texts of which none begins with the other. -/
def apart (first second : List Char) : Bool :=
  !first.isPrefixOf second && !second.isPrefixOf first

/-- A text has no two leads that are apart. -/
theorem ne_of_apart {first second : List Char} (differ : apart first second = true)
    (rest other : List Char) : first ++ rest ≠ second ++ other := by
  intro same
  simp only [apart, Bool.and_eq_true, Bool.not_eq_eq_eq_not, Bool.not_true,
    ← Bool.not_eq_true, List.isPrefixOf_iff_prefix] at differ
  have whole : first <+: second ++ other := ⟨rest, same⟩
  rcases List.prefix_or_prefix_of_prefix whole (List.prefix_append second other) with before | before
  · exact differ.1 before
  · exact differ.2 before

/-- Nothing is read from a text with another lead. -/
theorem between?_of_lead {text : String} (head lead : String)
    (starts : ∃ more, start = head ++ more) (leads : ∃ rest, text = lead ++ rest)
    (differ : apart head.toList lead.toList = true) : between? start ending text = none := by
  obtain ⟨more, rfl⟩ := starts
  obtain ⟨rest, rfl⟩ := leads
  refine Option.eq_none_iff_forall_ne_some.mpr fun middle found => ?_
  rw [between?_eq_some_iff] at found
  apply ne_of_apart differ (more ++ middle ++ ending).toList rest.toList
  simpa using (congrArg String.toList found).symm

/-- A common lead does not matter. -/
theorem between?_append_append (lead start ending text : String) :
    between? (lead ++ start) ending (lead ++ text) = between? start ending text := by
  ext middle
  simp only [between?_eq_some_iff, String.append_assoc, String.append_right_inj]

/-- Nothing is read from a text with another tail. -/
theorem between?_of_tail {text tail : String} (ends : ∃ front, text = front ++ tail)
    (differ : apart ending.toList.reverse tail.toList.reverse = true) :
    between? start ending text = none := by
  obtain ⟨front, rfl⟩ := ends
  refine Option.eq_none_iff_forall_ne_some.mpr fun middle found => ?_
  rw [between?_eq_some_iff] at found
  apply ne_of_apart differ (start ++ middle).toList.reverse front.toList.reverse
  simpa using (congrArg (fun text => text.toList.reverse) found).symm

/-- The parts before and behind a divider, which stands where its first character does. -/
def cut? (divider text : String) : Option (String × String) :=
  let before := text.toList.takeWhile fun c => some c ≠ divider.toList.head?
  let behind := text.toList.dropWhile fun c => some c ≠ divider.toList.head?
  (afterStart? divider.toList behind).map fun rest => (String.ofList before, String.ofList rest)

/-- A text is cut at a divider whose first character does not stand before it. -/
theorem cut?_append {divider before : String} {mark : Char}
    (marked : divider.toList.head? = some mark) (plain : mark ∉ before.toList) (behind : String) :
    cut? divider (before ++ divider ++ behind) = some (before, behind) := by
  have all : ∀ c ∈ before.toList, decide (some c ≠ divider.toList.head?) = true := by
    intro c inside
    rw [marked]
    simp only [ne_eq, Option.some.injEq, decide_eq_true_eq]
    exact fun same => plain (same ▸ inside)
  have ends : decide (some mark ≠ divider.toList.head?) = false := by simp [marked]
  cases spelled : divider.toList with
  | nil => simp [spelled] at marked
  | cons first rest =>
      obtain rfl : first = mark := by simpa [spelled] using marked
      have text : (before ++ divider ++ behind).toList =
          before.toList ++ first :: (rest ++ behind.toList) := by
        simp [spelled]
      rw [cut?, text, takeWhile_run all ends, dropWhile_run all ends, spelled,
        ← List.cons_append, afterStart?_eq_some_iff.mpr rfl]
      simp

/-! Trimming. -/

/-- A text without blanks at its ends. -/
structure IsTrimmed (text : List Char) : Prop where
  first : ∀ c ∈ text.head?, isBlank c = false
  last : ∀ c ∈ text.getLast?, isBlank c = false

private theorem trimEndChars_eq_rdropWhile (text : List Char) :
    trimEndChars text = text.rdropWhile isBlank :=
  rfl

theorem trimChars_of_isTrimmed (trimmed : IsTrimmed text) : trimChars text = text := by
  have front : text.dropWhile isBlank = text := by
    cases text with
    | nil => rfl
    | cons c rest => exact List.dropWhile_cons_of_neg (by simp [trimmed.first c rfl])
  rw [trimChars, front, trimEndChars_eq_rdropWhile, List.rdropWhile_eq_self_iff]
  intro filled
  rw [trimmed.last _ (List.getLast?_eq_some_getLast filled)]
  exact Bool.false_ne_true

/-- Trimming adds nothing. -/
theorem trimChars_subset (text : List Char) : trimChars text ⊆ text :=
  List.Subset.trans ( List.rdropWhile_prefix isBlank _).subset (List.dropWhile_suffix isBlank).subset

/-- Trimming leaves no blank at an end. -/
theorem isTrimmed_trimChars (text : List Char) : IsTrimmed (trimChars text) := by
  constructor
  · intro c begins
    obtain ⟨rest, whole⟩ := List.rdropWhile_prefix isBlank (text.dropWhile isBlank)
    have kept := List.head?_dropWhile_not isBlank text
    have head : (text.dropWhile isBlank).head? = some c := by
      rw [← whole, List.head?_append_of_ne_nil]
      · exact begins
      · exact List.ne_nil_of_mem (List.mem_of_mem_head? begins)
    simpa only [head] using kept
  · intro c ends
    have filled : trimChars text ≠ [] := List.ne_nil_of_mem (List.mem_of_mem_getLast? ends)
    have kept := List.rdropWhile_last_not isBlank (text.dropWhile isBlank) filled
    rw [Option.mem_def, List.getLast?_eq_some_getLast filled, Option.some.injEq] at ends
    exact ends ▸ Bool.eq_false_iff.mpr kept

/-- Trimming again changes nothing. -/
theorem trimChars_trimChars (text : List Char) : trimChars (trimChars text) = trimChars text :=
  trimChars_of_isTrimmed (isTrimmed_trimChars text)

/-- A text that is trimmed away is blank throughout. -/
theorem trimChars_eq_nil_iff : trimChars text = [] ↔ ∀ c ∈ text, isBlank c = true := by
  rw [trimChars, trimEndChars_eq_rdropWhile, List.rdropWhile_eq_nil_iff]
  constructor
  · intro behind c inside
    rw [← List.takeWhile_append_dropWhile (p := isBlank) (l := text)] at inside
    rcases List.mem_append.mp inside with front | back
    · exact List.mem_takeWhile_imp front
    · exact behind c back
  · exact fun each c inside => each c ((List.dropWhile_suffix isBlank).subset inside)

end Recordgen.Text
