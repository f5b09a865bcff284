/-! # Maps from keys, in order

A map from strings that lists its entries by key, in the order of the code points.
-/

namespace Recordgen

/-- Puts an entry into a sorted list of entries, in place of one with the same key. -/
def insertSorted {α : Type} (key : String) (value : α) :
    List (String × α) → List (String × α)
  | [] => [(key, value)]
  | entry :: rest =>
    if key < entry.1 then (key, value) :: entry :: rest
    else if key = entry.1 then (key, value) :: rest
    else entry :: insertSorted key value rest

/-- Strict order of entries by key. -/
def KeysAscend {α : Type} (entries : List (String × α)) : Prop :=
  entries.Pairwise fun first second => first.1 < second.1

private theorem mem_insertSorted {α : Type} {key : String} {value : α} {entries : List (String × α)}
    {entry : String × α} (member : entry ∈ insertSorted key value entries) :
    entry = (key, value) ∨ entry ∈ entries := by
  induction entries with
  | nil => exact .inl (List.mem_singleton.1 member)
  | cons head rest ih =>
    unfold insertSorted at member
    split at member
    · simpa using member
    · split at member
      · rcases List.mem_cons.1 member with rfl | later
        · exact .inl rfl
        · exact .inr (List.mem_cons_of_mem _ later)
      · rcases List.mem_cons.1 member with rfl | later
        · exact .inr List.mem_cons_self
        · exact (ih later).imp_right (List.mem_cons_of_mem _)

private theorem keysAscend_insertSorted {α : Type} {key : String} {value : α}
    {entries : List (String × α)} (ascend : KeysAscend entries) :
    KeysAscend (insertSorted key value entries) := by
  induction entries with
  | nil => simp [insertSorted, KeysAscend]
  | cons head rest ih =>
    obtain ⟨above, ascend⟩ := List.pairwise_cons.1 ascend
    unfold insertSorted
    split
    · rename_i below
      refine List.pairwise_cons.2 ⟨?_, List.pairwise_cons.2 ⟨above, ascend⟩⟩
      intro entry member
      rcases List.mem_cons.1 member with rfl | later
      · exact below
      · exact String.lt_trans below (above entry later)
    · split
      · rename_i same
        exact List.pairwise_cons.2 ⟨fun entry later => same ▸ above entry later, ascend⟩
      · rename_i notBelow different
        refine List.pairwise_cons.2 ⟨?_, ih ascend⟩
        intro entry member
        rcases mem_insertSorted member with rfl | later
        · rcases String.le_total head.1 key with le | ge
          · exact String.not_le.1 fun ge => different (String.le_antisymm ge le)
          · exact absurd (String.not_le.1 fun le => different (String.le_antisymm ge le)) notBelow
        · exact above entry later

/-- A map from strings. -/
structure KeyMap (α : Type) where
  /-- The entries, by ascending key. -/
  entries : List (String × α) := []
  ascend : KeysAscend entries := by exact List.Pairwise.nil

namespace KeyMap

variable {α : Type}

instance : Inhabited (KeyMap α) := ⟨{}⟩

/-- The value of a key. -/
def get? (map : KeyMap α) (key : String) : Option α :=
  map.entries.lookup key

/-- Whether a key has a value. -/
def contains (map : KeyMap α) (key : String) : Bool :=
  (map.get? key).isSome

/-- Sets the value of a key. -/
def insert (map : KeyMap α) (key : String) (value : α) : KeyMap α :=
  ⟨insertSorted key value map.entries, keysAscend_insertSorted map.ascend⟩

/-- The values, by ascending key. -/
def values (map : KeyMap α) : List α :=
  map.entries.map Prod.snd

end KeyMap

end Recordgen
