import Mathlib.Data.List.Basic
import Recordgen.Store.Memory

/-! # Reading and writing a store in memory

What is found at a path after a file was written or a directory was created. Writing a file changes
what is read at its own path and nowhere else (`get?_write`), it moves and removes no file
(`paths_write`), and the directories that it adds are those above the file (`mem_directories_write`).
-/

namespace Recordgen

/-- The file with the given parts is set, and no other. -/
theorem find?_setFile (path contents : String) (parts : List String)
    (files : List (String × String)) :
    ((setFile path contents files).find? fun file => Path.parts file.1 = parts).map Prod.snd =
      if parts = Path.parts path then some contents
      else (files.find? fun file => Path.parts file.1 = parts).map Prod.snd := by
  rw [setFile]
  induction files with
  | nil =>
      rw [setFile.go, List.find?_cons]
      by_cases same : parts = Path.parts path
      · simp [same]
      · simp [same, Ne.symm same]
  | cons file files ih =>
      rw [setFile.go]
      split
      · rename_i here
        by_cases same : parts = Path.parts path
        · simp [here, same]
        · have other : ¬Path.parts file.1 = parts := fun matching => same (matching.symm.trans here)
          simp [same, other]
      · rename_i elsewhere
        by_cases found : Path.parts file.1 = parts
        · have other : ¬parts = Path.parts path := fun matching => elsewhere (found.trans matching)
          simp [found, other]
        · simp only [List.find?_cons, found, decide_false]
          exact ih

private theorem paths_setFile (path contents : String) (files : List (String × String)) :
    files.map Prod.fst <+: (setFile path contents files).map Prod.fst := by
  rw [setFile]
  induction files with
  | nil => exact List.nil_prefix
  | cons file files ih =>
      rw [setFile.go]
      split
      · exact List.prefix_rfl
      · exact List.cons_prefix_cons.mpr ⟨rfl, ih⟩

namespace MemoryStore

variable (store : MemoryStore) {other path contents : String}

private theorem addDirectory_files (plain : String) :
    (store.addDirectory plain).files = store.files := by
  rw [addDirectory]
  split <;> rfl

private theorem mem_directories_addDirectory {plain : String} :
    other ∈ (store.addDirectory plain).directories ↔ other ∈ store.directories ∨ other = plain := by
  rw [addDirectory]
  split
  · rename_i present
    constructor
    · exact Or.inl
    · rintro (member | rfl)
      · exact member
      · exact List.contains_iff_mem.mp present
  · rw [List.mem_append, List.mem_singleton]

/-- Making a directory changes no file. -/
theorem ensureDirectory_files (path : String) :
    (store.ensureDirectory path).files = store.files := by
  rw [ensureDirectory]
  induction stages path generalizing store with
  | nil => rfl
  | cons plain stages ih => rw [List.foldl_cons, ih, addDirectory_files]

/-- A directory is made with the directories above it. -/
theorem mem_directories_ensureDirectory :
    other ∈ (store.ensureDirectory path).directories ↔
      other ∈ store.directories ∨ other ∈ stages path := by
  rw [ensureDirectory]
  induction stages path generalizing store with
  | nil => simp
  | cons plain stages ih =>
      rw [List.foldl_cons, ih, mem_directories_addDirectory, List.mem_cons, or_assoc]

/-- Paths with the same parts lead to the same file. -/
theorem get?_congr (same : Path.parts path = Path.parts other) :
    store.get? path = store.get? other := by
  rw [get?, get?, same]

/-- A new directory changes no file. -/
theorem get?_ensureDirectory (path other : String) :
    (store.ensureDirectory path).get? other = store.get? other := by
  rw [get?, ensureDirectory_files]
  rfl

theorem write_files (path contents : String) :
    (store.write path contents).files = setFile path contents store.files := by
  rw [write]
  cases Path.parent? path with
  | none => rfl
  | some parent => exact congrArg (setFile path contents) (store.ensureDirectory_files parent)

/-- **Writing.** A file holds what was written to it last, and all other files stay as they are. -/
theorem get?_write (path contents other : String) :
    (store.write path contents).get? other =
      if Path.parts other = Path.parts path then some contents else store.get? other := by
  rw [get?, write_files]
  exact find?_setFile path contents (Path.parts other) store.files

/-- A write changes nothing at other paths, however they are spelled. -/
theorem get?_write_of_ne (different : Path.parts other ≠ Path.parts path) :
    (store.write path contents).get? other = store.get? other := by
  rw [get?_write, if_neg different]

/-- Files keep their places, and new ones come behind them. -/
theorem paths_write (path contents : String) :
    store.files.map Prod.fst <+: (store.write path contents).files.map Prod.fst := by
  rw [write_files]
  exact paths_setFile path contents store.files

/-- A write makes the directories above its file. -/
theorem mem_directories_write :
    other ∈ (store.write path contents).directories ↔
      other ∈ store.directories ∨ ∃ parent ∈ Path.parent? path, other ∈ stages parent := by
  rw [write]
  cases Path.parent? path with
  | none => simp
  | some parent => simpa using store.mem_directories_ensureDirectory

private theorem contains_eq_of {store after : MemoryStore}
    (file : after.get? path = store.get? path)
    (directory : Path.plain path ∈ after.directories ↔ Path.plain path ∈ store.directories) :
    after.contains path = store.contains path := by
  rw [contains, contains, file, Bool.eq_iff_iff, Bool.or_eq_true, Bool.or_eq_true,
    List.contains_iff_mem, List.contains_iff_mem, directory]

/-- Making a directory changes what is there only at the stages of its path. -/
theorem contains_ensureDirectory (outside : Path.plain other ∉ stages path) :
    (store.ensureDirectory path).contains other = store.contains other := by
  refine contains_eq_of (store.get?_ensureDirectory path other) ?_
  rw [mem_directories_ensureDirectory, or_iff_left outside]

/-- Writing a file adds nothing at other paths but the directories that hold it. -/
theorem contains_write {parent : String} (different : Path.parts other ≠ Path.parts path)
    (held : Path.parent? path = some parent) (outside : Path.plain other ∉ stages parent) :
    (store.write path contents).contains other = store.contains other := by
  refine contains_eq_of (store.get?_write_of_ne different) ?_
  rw [mem_directories_write, held]
  simp [outside]

theorem get?_of_contains {store : MemoryStore} (absent : store.contains path = false) :
    store.get? path = none := by
  rw [contains, Bool.or_eq_false_iff] at absent
  exact Option.isNone_iff_eq_none.mp (Option.isSome_eq_false_iff.mp absent.1)

end MemoryStore

end Recordgen
