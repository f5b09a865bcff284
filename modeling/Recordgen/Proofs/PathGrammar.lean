import Recordgen.Proofs.PathWalking
import Recordgen.Proofs.TypeStringForm

/-! # The grammar of paths

A path is written as segments with colons between them, and a segment can be any text without colons
that is not blank (`IsSegment`). Joined segments are cut where they were joined, so the last one is
read as the field, the first of several as the root and those between as references to follow
(`FieldPath.MadeOf`). What is displayed is the path with its blanks trimmed, and it stands for the
same path (`path_grammar`).
-/

namespace Recordgen

open Outcome

variable {text : String}

/-- A segment that can stand in a path: it has no colon and is not blank. -/
structure IsSegment (segment : String) : Prop where
  undivided : ':' ∉ segment.toList
  filled : ∃ c ∈ segment.toList, Text.isBlank c = false

/-- Some segment of a text, from one colon or end of the text to the next, holds only blanks. -/
def HasBlankSegment (text : String) : Prop :=
  ∃ segment ∈ text.toList.splitOn ':', ∀ c ∈ segment, Text.isBlank c = true

private theorem Text.trim_eq_empty_iff :
    Text.trim text = "" ↔ ∀ c ∈ text.toList, Text.isBlank c = true := by
  rw [Text.trim, String.ofList_eq_empty_iff, Text.trimChars_eq_nil_iff]

private theorem empty_mem_trimmedSegments_iff :
    "" ∈ trimmedSegments text ↔ HasBlankSegment text := by
  simp only [trimmedSegments, List.mem_map, String.ofList_eq_empty_iff, Text.trimChars_eq_nil_iff]
  rfl

private theorem trimmedSegments_ne_nil (text : String) : trimmedSegments text ≠ [] := by
  simp [trimmedSegments]

private theorem pathSegments_of_blank (blank : HasBlankSegment text) (kind : PathKind) :
    pathSegments kind text = .error (.malformed (.emptySegment kind text)) := by
  rw [pathSegments_eq, if_pos (empty_mem_trimmedSegments_iff.mpr blank)]

/-- Segments without colons are cut where they were joined. -/
theorem trimmedSegments_intercalate {segments : List String} (present : segments ≠ [])
    (undivided : ∀ segment ∈ segments, ':' ∉ segment.toList) :
    trimmedSegments (":".intercalate segments) = segments.map Text.trim := by
  have parts : ∀ part ∈ segments.map String.toList, ':' ∉ part := by
    rw [List.forall_mem_map]
    exact undivided
  have colon : ":".toList = [':'] := rfl
  rw [trimmedSegments, String.toList_intercalate, colon,
    List.splitOn_intercalate _ parts (by simpa using present), List.map_map]
  rfl

/-- What is kept of a segment is a segment without colons and without blanks at its ends. -/
theorem of_mem_trimmedSegments {segment : String} (listed : segment ∈ trimmedSegments text) :
    ':' ∉ segment.toList ∧ Text.trim segment = segment := by
  obtain ⟨part, cut, rfl⟩ := List.mem_map.mp listed
  rw [← Text.splitAtChar_eq_splitOn] at cut
  constructor
  · intro inside
    rw [String.toList_ofList] at inside
    have kept := (Text.mem_of_mem_splitWhere cut (Text.trimChars_subset part inside)).2
    exact absurd rfl (of_decide_eq_false kept)
  · rw [Text.trim, String.toList_ofList, Text.trimChars_trimChars]

/-- Segments that were cut from a path can be joined again. -/
theorem trimmedSegments_join (text : String) :
    trimmedSegments (":".intercalate (trimmedSegments text)) = trimmedSegments text := by
  rw [trimmedSegments_intercalate (trimmedSegments_ne_nil text) fun _ listed =>
    (of_mem_trimmedSegments listed).1]
  exact (List.map_congr_left fun _ listed => (of_mem_trimmedSegments listed).2).trans
    (List.map_id' _)

namespace FieldPath

variable {path : FieldPath}

/-- A path is made of segments: the last one is the field, the first of several the root, and those
between are followed. -/
structure MadeOf (path : FieldPath) (segments : List String) : Prop where
  field : some path.field = segments.getLast?.map Text.trim
  root : path.root = if 2 ≤ segments.length then segments.head?.map Text.trim else none
  inner : path.inner = segments.tail.dropLast.map Text.trim

/-- Segments make up a path, if there are any. -/
theorem exists_madeOf {segments : List String} (present : segments ≠ []) :
    ∃ path, ofSegments? (segments.map Text.trim) = some path ∧ path.MadeOf segments := by
  cases segments with
  | nil => exact absurd rfl present
  | cons first rest =>
      -- One segment is a field without a root.
      cases rest with
      | nil => exact ⟨_, rfl, rfl, rfl, rfl⟩
      | cons second rest =>
          refine ⟨_, rfl, ?_, rfl, ?_⟩
          · rw [← List.getLast?_eq_some_getLast, ← List.getLast?_map]
            rfl
          · rw [List.map_dropLast]
            rfl

private theorem segments_of_ofSegments? {segments : List String}
    (made : ofSegments? segments = some path) :
    path.segments = segments := by
  cases segments with
  | nil => cases made
  | cons first rest =>
      cases rest with
      | nil =>
          cases made
          rfl
      | cons second rest =>
          cases made
          exact congrArg (first :: ·) (List.dropLast_concat_getLast _)

/-- A path is read from the trimmed segments of a text, and from nothing else. -/
theorem parse_eq_ok_iff {text : String} :
    parse text = .ok path ↔
      "" ∉ trimmedSegments text ∧ ofSegments? (trimmedSegments text) = some path := by
  rw [parse, pathSegments_eq]
  by_cases blank : "" ∈ trimmedSegments text
  · simp [blank, bind_eq_ok_iff]
  · simp only [blank, if_false, not_false_eq_true, true_and, bind_eq_ok_iff]
    cases made : ofSegments? (trimmedSegments text) <;> simp [made, pure_eq_ok_iff]

/-- A path that is displayed is read again as itself. -/
theorem parse_display {text : String} (read : parse text = .ok path) :
    parse path.display = .ok path := by
  obtain ⟨filled, made⟩ := parse_eq_ok_iff.mp read
  have shown : trimmedSegments path.display = trimmedSegments text := by
    rw [display, segments_of_ofSegments? made, trimmedSegments_join]
  rw [parse_eq_ok_iff, shown]
  exact ⟨filled, made⟩

end FieldPath

/-- A reference path is a field path of at most two segments. -/
theorem ReferencePath.parse_eq {path : FieldPath} (read : FieldPath.parse text = .ok path) :
    parse text =
      if (trimmedSegments text).length ≤ 2 then .ok ⟨path.root, path.field⟩
      else .error (.malformed (.referenceForm text)) := by
  obtain ⟨filled, made⟩ := FieldPath.parse_eq_ok_iff.mp read
  rw [parse, pathSegments_eq, if_neg filled]
  cases segments : trimmedSegments text with
  | nil => exact absurd segments (trimmedSegments_ne_nil text)
  | cons first rest =>
      rw [segments] at made
      cases rest with
      | nil =>
          cases made
          rfl
      | cons second rest => cases rest <;> cases made <;> rfl

/-- **Paths.** Segments that are not blank and have no colons, joined by colons, are read as the
field path that is made of them, and as a reference path with the same root and field if there are
one or two of them; more are refused. A text with a blank segment is refused by both. What a field
path displays is read as that path again. -/
theorem path_grammar :
    (∀ segments : List String, segments ≠ [] → (∀ segment ∈ segments, IsSegment segment) →
      ∃ path, FieldPath.parse (":".intercalate segments) = .ok path ∧ path.MadeOf segments ∧
        ReferencePath.parse (":".intercalate segments) =
          if segments.length = 1 ∨ segments.length = 2 then .ok ⟨path.root, path.field⟩
          else .error (.malformed (.referenceForm (":".intercalate segments)))) ∧
    (∀ text, HasBlankSegment text →
      FieldPath.parse text = .error (.malformed (.emptySegment .field text)) ∧
      ReferencePath.parse text = .error (.malformed (.emptySegment .reference text))) ∧
    (∀ text path, FieldPath.parse text = .ok path → FieldPath.parse path.display = .ok path) := by
  refine ⟨fun segments present each => ?_, fun text blank => ?_, fun _ _ => FieldPath.parse_display⟩
  · have cut := trimmedSegments_intercalate present fun segment listed =>
      (each segment listed).undivided
    have filled : "" ∉ segments.map Text.trim := by
      intro blank
      obtain ⟨segment, listed, empty⟩ := List.mem_map.mp blank
      obtain ⟨c, inside, solid⟩ := (each segment listed).filled
      rw [Text.trim_eq_empty_iff.mp empty c inside] at solid
      cases solid
    obtain ⟨path, made, madeOf⟩ := FieldPath.exists_madeOf present
    have read : FieldPath.parse (":".intercalate segments) = .ok path := by
      rw [FieldPath.parse_eq_ok_iff, cut]
      exact ⟨filled, made⟩
    have few : (trimmedSegments (":".intercalate segments)).length ≤ 2 ↔
        segments.length = 1 ∨ segments.length = 2 := by
      have positive := List.length_pos_iff.mpr present
      rw [cut, List.length_map]
      omega
    refine ⟨path, read, madeOf, ?_⟩
    simp only [ReferencePath.parse_eq read, few]
  · rw [FieldPath.parse, ReferencePath.parse, pathSegments_of_blank blank,
      pathSegments_of_blank blank]
    exact ⟨rfl, rfl⟩

/-- Three segments with blanks around them, and a text with nothing but a blank between colons. -/
theorem spaced_path_grammar :
    (∃ path, FieldPath.parse " order:customer\u3000:name" = .ok path ∧
      path.MadeOf [" order", "customer\u3000", "name"] ∧
      ReferencePath.parse " order:customer\u3000:name" =
        .error (.malformed (.referenceForm " order:customer\u3000:name")) ∧
      FieldPath.parse path.display = .ok path) ∧
    FieldPath.parse "order: :name" = .error (.malformed (.emptySegment .field "order: :name")) ∧
    ReferencePath.parse "order: :name" =
      .error (.malformed (.emptySegment .reference "order: :name")) := by
  have each : ∀ segment ∈ [" order", "customer\u3000", "name"], IsSegment segment := by
    rw [List.forall_mem_cons, List.forall_mem_cons, List.forall_mem_singleton]
    exact ⟨⟨by decide, 'o', by decide, by decide⟩, ⟨by decide, 'c', by decide, by decide⟩,
      ⟨by decide, 'n', by decide, by decide⟩⟩
  have blank : HasBlankSegment "order: :name" := ⟨[' '], by decide, by simp; decide⟩
  obtain ⟨path, read, made, refused⟩ := path_grammar.1 _ (List.cons_ne_nil _ _) each
  exact ⟨⟨path, read, made, refused, path_grammar.2.2 _ _ read⟩, path_grammar.2.1 _ blank⟩

end Recordgen
