import Recordgen.KeyMap
import Mathlib.Data.List.Forall2
import Mathlib.Data.List.Nodup

/-! # Keyed lists and related lists

Looking up a key in a list of entries, what setting a key changes in a map, lists whose members are
related one by one, and lists that are appended to an arena.
-/

namespace Recordgen

variable {α β : Type} {entries : List (α × β)} {related : α → α → Prop} {values : List α}

theorem lookup_cons_ite [DecidableEq α] (entry : α × β) (rest : List (α × β)) (key : α) :
    (entry :: rest).lookup key = if key = entry.1 then some entry.2 else rest.lookup key := by
  obtain ⟨name, value⟩ := entry
  by_cases same : key = name
  · subst same
    rw [List.lookup_cons_self, if_pos rfl]
  · rw [List.lookup_cons, if_neg same, beq_eq_false_iff_ne.mpr same]

theorem mem_of_lookup_eq_some [DecidableEq α] {key : α} {value : β}
    (found : entries.lookup key = some value) : (key, value) ∈ entries := by
  obtain ⟨before, after, rfl, -⟩ := List.lookup_eq_some_iff.mp found
  simp

/-- Among distinct keys, an entry is what the look-up of its key finds. -/
theorem lookup_eq_some_of_mem [DecidableEq α] {key : α} {value : β}
    (distinct : (entries.map Prod.fst).Nodup) (member : (key, value) ∈ entries) :
    entries.lookup key = some value := by
  induction entries with
  | nil => cases member
  | cons entry rest ih =>
      rw [List.map_cons, List.nodup_cons] at distinct
      rw [lookup_cons_ite]
      rcases List.mem_cons.mp member with rfl | later
      · rw [if_pos rfl]
      · have different : key ≠ entry.1 := by
          rintro rfl
          exact distinct.1 (List.mem_map.mpr ⟨_, later, rfl⟩)
        rw [if_neg different]
        exact ih distinct.2 later

private theorem lookup_insertSorted (entries : List (String × α)) (key other : String) (value : α)
    (ascend : KeysAscend entries) :
    (insertSorted key value entries).lookup other =
      if other = key then some value else entries.lookup other := by
  induction entries with
  | nil => rw [insertSorted, lookup_cons_ite]
  | cons entry rest ih =>
      obtain ⟨above, ascend⟩ := List.pairwise_cons.mp ascend
      unfold insertSorted
      split
      · rw [lookup_cons_ite]
      · split
        · rename_i same
          rw [lookup_cons_ite, lookup_cons_ite, ← same]
          by_cases here : other = key <;> simp only [here, ↓reduceIte]
        · rename_i different
          rw [lookup_cons_ite, lookup_cons_ite, ih ascend]
          by_cases here : other = entry.1
          · have other : other ≠ key := fun same => different (same ▸ here)
            rw [if_pos here, if_neg other, if_pos here]
          · rw [if_neg here, if_neg here]

private theorem perm_insertSorted (entries : List (String × α)) (key : String) (value : α)
    (absent : key ∉ entries.map Prod.fst) :
    (insertSorted key value entries).Perm ((key, value) :: entries) := by
  induction entries with
  | nil => exact List.Perm.refl _
  | cons entry rest ih =>
      rw [List.map_cons, List.mem_cons, not_or] at absent
      unfold insertSorted
      split
      · exact List.Perm.refl _
      · rw [if_neg absent.1]
        exact ((ih absent.2).cons entry).trans (List.Perm.swap _ _ _)

section Related

variable {related : α → β → Prop} {first : List α} {second : List β} {γ : Type} {values : List β}

theorem exists_right_of_mem (all : List.Forall₂ related first second) {value : α}
    (member : value ∈ first) : ∃ partner ∈ second, related value partner := by
  induction all with
  | nil => cases member
  | cons here _ ih =>
      rcases List.mem_cons.mp member with rfl | member
      · exact ⟨_, List.mem_cons_self, here⟩
      · obtain ⟨partner, present, found⟩ := ih member
        exact ⟨partner, List.mem_cons_of_mem _ present, found⟩

theorem exists_left_of_mem (all : List.Forall₂ related first second) {partner : β}
    (member : partner ∈ second) : ∃ value ∈ first, related value partner := by
  have flipped : List.Forall₂ (flip related) second first := all.flip
  exact exists_right_of_mem flipped member

/-- A condition on one side holds throughout if its counterpart does. -/
theorem forall_mem_iff_of_forall₂ {left : α → Prop} {right : β → Prop}
    (all : List.Forall₂ related first second)
    (agree : ∀ value partner, related value partner → (left value ↔ right partner)) :
    (∀ value ∈ first, left value) ↔ ∀ partner ∈ second, right partner := by
  constructor
  · intro each partner member
    obtain ⟨value, present, here⟩ := exists_left_of_mem all member
    exact (agree value partner here).mp (each value present)
  · intro each value member
    obtain ⟨partner, present, here⟩ := exists_right_of_mem all member
    exact (agree value partner here).mpr (each partner present)

theorem rel_head? (all : List.Forall₂ related first second) :
    Option.Rel related first.head? second.head? := by
  cases all with
  | nil => exact .none
  | cons here _ => exact .some here

theorem forall₂_getElem? (all : List.Forall₂ related first second) {index : Nat} {value : α}
    (present : first[index]? = some value) :
    ∃ partner, second[index]? = some partner ∧ related value partner := by
  induction all generalizing index with
  | nil => simp at present
  | cons here _ ih =>
      cases index with
      | zero => exact ⟨_, rfl, Option.some.inj present ▸ here⟩
      | succ index => exact ih present

/-- What is found by key in the second of two lists with the same keys is related to what is found in
the first. -/
theorem exists_lookup_of_forall₂ {κ : Type} [DecidableEq κ] {related : β → γ → Prop}
    {first : List (κ × β)} {second : List (κ × γ)}
    (all : List.Forall₂ (fun entry image => image.1 = entry.1 ∧ related entry.2 image.2)
      first second)
    {key : κ} {image : γ} (found : second.lookup key = some image) :
    ∃ value, first.lookup key = some value ∧ related value image := by
  induction all with
  | nil => cases found
  | cons here _ ih =>
      rw [lookup_cons_ite, here.1] at found
      rw [lookup_cons_ite]
      split at found
      · rename_i same
        rw [if_pos same]
        exact ⟨_, rfl, Option.some.inj found ▸ here.2⟩
      · rename_i different
        rw [if_neg different]
        exact ih found

/-- A list related to two in a row falls into two parts. -/
theorem forall₂_append_left {more : List α} {both : List β}
    (all : List.Forall₂ related (first ++ more) both) :
    ∃ left right, both = left ++ right ∧ List.Forall₂ related first left ∧
      List.Forall₂ related more right := by
  induction first generalizing both with
  | nil => exact ⟨[], both, rfl, .nil, all⟩
  | cons value first ih =>
      rw [List.cons_append, List.forall₂_cons_left_iff] at all
      obtain ⟨partner, others, here, all, rfl⟩ := all
      obtain ⟨left, right, rfl, before, behind⟩ := ih all
      exact ⟨partner :: left, right, rfl, .cons here before, behind⟩

theorem forall₂_modify {index : Nat} {change : β → β} (all : List.Forall₂ related first second)
    (kept : ∀ value partner, related value partner → related value (change partner)) :
    List.Forall₂ related first (second.modify index change) := by
  induction all generalizing index with
  | nil => simp
  | cons here rest ih =>
      cases index with
      | zero => exact .cons (kept _ _ here) rest
      | succ index => exact .cons here ih

theorem map_eq_of_forall₂ {found : α → β} {ids : List α}
    (all : List.Forall₂ (fun id value => found id = value) ids values) :
    ids.map found = values := by
  rw [← List.forall₂_eq_eq_eq, List.forall₂_map_left_iff]
  exact all

theorem map_eq_map_of_forall₂ {left : α → γ} {right : β → γ}
    (all : List.Forall₂ related first second)
    (same : ∀ value partner, related value partner → right partner = left value) :
    second.map right = first.map left := by
  induction all with
  | nil => rfl
  | cons here _ ih => rw [List.map_cons, List.map_cons, same _ _ here, ih]

/-- Two images of one list are related by a function if their members are. -/
theorem eq_map_of_forall₂ {change : β → γ} {other : α → γ → Prop} {images : List γ}
    (left : List.Forall₂ related first second) (right : List.Forall₂ other first images)
    (same : ∀ value partner image, related value partner → other value image →
      image = change partner) : images = second.map change := by
  induction left generalizing images with
  | nil =>
      cases right
      rfl
  | cons here _ ih =>
      cases right with
      | cons there rest => rw [List.map_cons, same _ _ _ here there, ih rest]

theorem flatMap_eq_of_forall₂ {left : α → List γ} {right : β → List γ}
    (all : List.Forall₂ related first second)
    (same : ∀ value partner, related value partner → right partner = left value) :
    second.flatMap right = first.flatMap left := by
  rw [List.flatMap_def, List.flatMap_def, map_eq_map_of_forall₂ all same]

/-- What handles lead to is exchanged for what they lead to elsewhere. -/
theorem forall₂_follow {lead : α → β → Prop} {ids : List α} (elsewhere : α → γ → Prop)
    (related : β → γ → Prop) (all : List.Forall₂ lead ids values)
    (follow : ∀ id value, lead id value → ∃ image, elsewhere id image ∧ related value image) :
    ∃ images, List.Forall₂ elsewhere ids images ∧ List.Forall₂ related values images := by
  induction all with
  | nil => exact ⟨[], .nil, .nil⟩
  | cons here _ ih =>
      obtain ⟨image, led, same⟩ := follow _ _ here
      obtain ⟨images, leads, sames⟩ := ih
      exact ⟨image :: images, .cons led leads, .cons same sames⟩

end Related

theorem forall₂_trans (compose : ∀ x y z, related x y → related y z → related x z)
    {first second third : List α} (before : List.Forall₂ related first second)
    (after : List.Forall₂ related second third) : List.Forall₂ related first third := by
  induction before generalizing third with
  | nil =>
      cases after
      exact .nil
  | cons here _ ih =>
      cases after with
      | cons there rest => exact .cons (compose _ _ _ here there) (ih rest)

/-- Filtering related lists by a test that cannot tell related values apart. -/
theorem forall₂_filter {partners : List α} (test : α → Bool)
    (all : List.Forall₂ related values partners)
    (agree : ∀ value partner, related value partner → test partner = test value) :
    List.Forall₂ (fun value partner => test value = true ∧ related value partner)
      (values.filter test) (partners.filter test) := by
  induction all with
  | nil => exact .nil
  | cons here _ ih =>
      rw [List.filter_cons, List.filter_cons, agree _ _ here]
      split
      · rename_i passes
        exact .cons ⟨passes, here⟩ ih
      · exact ih

/-- Parts that carry the key they come from do not repeat if the keys do not. -/
theorem nodup_flatMap_of_tag {γ : Type} {parts : α → List β} (key : α → γ) (tag : β → γ)
    (keys : (values.map key).Nodup) (each : ∀ value ∈ values, (parts value).Nodup)
    (tagged : ∀ value ∈ values, ∀ part ∈ parts value, tag part = key value) :
    (values.flatMap parts).Nodup := by
  refine List.nodup_flatMap.mpr ⟨each, ?_⟩
  refine (List.pairwise_map.mp keys).imp_of_mem ?_
  intro first second firstMember secondMember different part inFirst inSecond
  refine different ?_
  rw [← tagged first firstMember part inFirst, tagged second secondMember part inSecond]

theorem filterMap_map_sublist {γ : Type} {select : α → Option β} {tag : β → γ} {key : α → γ}
    (tagged : ∀ value part, select value = some part → tag part = key value) :
    ((values.filterMap select).map tag).Sublist (values.map key) := by
  induction values with
  | nil => exact List.Sublist.refl _
  | cons value values ih =>
      cases found : select value with
      | none =>
          rw [List.filterMap_cons_none found, List.map_cons]
          exact ih.cons _
      | some part =>
          rw [List.filterMap_cons_some found, List.map_cons, List.map_cons, tagged value part found]
          exact ih.cons_cons _

theorem getElem?_append_list {values : Array α} {more : List α} {index : Nat} {value : α}
    (present : values[index]? = some value) :
    (values ++ more)[index]? = some value := by
  rw [← Array.getElem?_toList] at present ⊢
  rw [Array.toList_appendList, List.getElem?_append_left (List.getElem?_eq_some_iff.mp present).1,
    present]

/-- Values that are numbered as they stand in an arena are found there under their handles. -/
theorem forall₂_numbered {ι : Type} {handle : α → ι} {index : ι → Nat} {before : Array α}
    (numbered : values.map (fun value => index (handle value)) =
      List.range' before.size values.length) :
    List.Forall₂ (fun id value => (before ++ values)[index id]? = some value)
      (values.map handle) values := by
  rw [List.forall₂_map_left_iff, List.forall₂_same]
  intro value member
  obtain ⟨position, inside, rfl⟩ := List.getElem_of_mem member
  have here := congrArg (fun numbers => numbers[position]?) numbered
  simp only [List.getElem?_map, List.getElem?_eq_getElem inside, Option.map_some,
    List.getElem?_range', inside, Option.some.injEq] at here
  rw [← Array.getElem?_toList, Array.toList_appendList, here,
    List.getElem?_append_right (by simp)]
  simp [inside]

/-- Numbering goes on behind what is already numbered. -/
theorem numbered_append {ι : Type} {handle : α → ι} {make : Nat → ι} {values : Array α}
    {more : List α} (before : values.toList.map handle = (List.range values.size).map make)
    (behind : more.map handle = (List.range' values.size more.length).map make) :
    (values ++ more).toList.map handle = (List.range (values ++ more).size).map make := by
  have long : (values ++ more).size = values.size + more.length := by
    rw [← Array.length_toList, Array.toList_appendList, List.length_append, Array.length_toList]
  rw [Array.toList_appendList, List.map_append, before, behind, ← List.map_append, long,
    List.range_eq_range', List.range_eq_range', ← List.range'_append_1, Nat.zero_add]

namespace KeyMap

variable {map : KeyMap α} {key : String}

/-- An insertion is seen under its own key only. -/
theorem get?_insert (map : KeyMap α) (key other : String) (value : α) :
    (map.insert key value).get? other = if other = key then some value else map.get? other :=
  lookup_insertSorted map.entries key other value map.ascend

theorem mem_keys_iff : key ∈ map.entries.map Prod.fst ↔ ∃ value, map.get? key = some value := by
  rw [← Option.isSome_iff_exists, get?, List.lookup_isSome_iff, List.mem_map]
  simp only [beq_iff_eq, @eq_comm _ key]

/-- A new key adds its entry and keeps the others. -/
theorem entries_insert (map : KeyMap α) (key : String) (value : α)
    (absent : map.contains key = false) :
    (map.insert key value).entries.Perm ((key, value) :: map.entries) := by
  apply perm_insertSorted
  intro member
  obtain ⟨value, found⟩ := mem_keys_iff.mp member
  rw [contains, found] at absent
  cases absent

/-- A new key adds its value and keeps the others. -/
theorem values_insert (map : KeyMap α) (key : String) (value : α)
    (absent : map.contains key = false) :
    (map.insert key value).values.Perm (value :: map.values) :=
  (map.entries_insert key value absent).map Prod.snd

theorem contains_insert {other : String} {value : α} (present : map.contains other = true) :
    (map.insert key value).contains other = true := by
  rw [contains, get?_insert]
  split
  · rfl
  · exact present

theorem mem_values_of_get? {value : α} (found : map.get? key = some value) : value ∈ map.values :=
  List.mem_map.mpr ⟨_, mem_of_lookup_eq_some found, rfl⟩

end KeyMap

/-- A list that is sorted by number ascends. -/
theorem pairwise_mergeSort_order {order : α → Nat} (values : List α) :
    (values.mergeSort fun first second => order first ≤ order second).Pairwise
      fun first second => order first ≤ order second := by
  refine (List.pairwise_mergeSort ?_ ?_ values).imp of_decide_eq_true
  · intro _ _ _ below above
    exact decide_eq_true (Nat.le_trans (of_decide_eq_true below) (of_decide_eq_true above))
  · intro first second
    simpa using Nat.le_total (order first) (order second)

end Recordgen
