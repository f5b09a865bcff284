import Recordgen.Proofs.ArtifactPaths
import Recordgen.Proofs.EmissionRun

/-! # Where headers are found after a run

A run changes nothing at a path where none of its headers stands (`get?_emitAll`). When no two of its
classes share their paths, it leaves every base header as it was rendered, and every leaf header too
unless there was something at its path before (`stands_emitAll`).
-/

namespace Recordgen

namespace Artifact

variable {artifact other : Artifact}

/-- Neither header of the class stands at the path. -/
def Avoids (artifact : Artifact) (path : String) : Prop :=
  Path.parts path ≠ Path.parts artifact.basePath ∧ Path.parts path ≠ Path.parts artifact.leafPath

/-- Artifacts with paths of their own leave each other's base files alone. -/
theorem avoids_basePath (plain : artifact.IsPlain) (alsoPlain : other.IsPlain)
    (apart : ¬artifact.SharesPaths other) : artifact.Avoids other.basePath :=
  ⟨fun same => apart ((parts_basePath_eq_iff plain alsoPlain).mp same.symm),
    base_ne_leaf alsoPlain plain⟩

/-- They leave each other's leaf files alone as well. -/
theorem avoids_leafPath (plain : artifact.IsPlain) (alsoPlain : other.IsPlain)
    (apart : ¬artifact.SharesPaths other) : artifact.Avoids other.leafPath :=
  ⟨(base_ne_leaf plain alsoPlain).symm,
    fun same => apart ((parts_leafPath_eq_iff plain alsoPlain).mp same.symm)⟩

/-- A leaf header is no directory: its path ends in `h`, and no output directory does. -/
theorem plain_leafPath_notMem (plain : artifact.IsPlain) {directories : List String}
    (none : ∀ directory ∈ directories, directory.toList.getLast? ≠ some 'h') :
    Path.plain artifact.leafPath ∉ directories := by
  rw [plain_leafPath plain]
  intro member
  refine none _ member ?_
  rw [leafPath, String.toList_append, List.getLast?_append]
  rfl

end Artifact

/-- What is found at the paths of a class once its headers are written. -/
structure HeaderPair.Stands (pair : HeaderPair) (store after : MemoryStore) : Prop where
  base : after.get? pair.artifact.basePath = some pair.base.render
  leaf : after.get? pair.artifact.leafPath =
    if store.contains pair.artifact.leafPath then store.get? pair.artifact.leafPath
    else some pair.leaf.render

namespace TotalSink

variable (store : MemoryStore) {artifact : Artifact} {pair : HeaderPair} {pairs : List HeaderPair}

/-- Preparing the directories changes no file. -/
theorem get?_prepare (path : String) : (memory.prepare store).get? path = store.get? path := by
  rw [prepare]
  induction outputDirectories generalizing store with
  | nil => rfl
  | cons directory directories ih =>
      rw [List.foldl_cons, ih]
      exact store.get?_ensureDirectory directory path

theorem leafPath_outside (plain : artifact.IsPlain) : ∀ directory ∈ outputDirectories,
    Path.plain artifact.leafPath ∉ MemoryStore.stages directory := by
  intro directory member
  refine Artifact.plain_leafPath_notMem plain ?_
  revert directory
  decide

/-- Preparing them makes no leaf file appear or vanish. -/
theorem contains_prepare (plain : artifact.IsPlain) :
    (memory.prepare store).contains artifact.leafPath = store.contains artifact.leafPath := by
  have outside := leafPath_outside plain
  rw [prepare]
  generalize outputDirectories = directories at outside ⊢
  induction directories generalizing store with
  | nil => rfl
  | cons directory directories ih =>
      obtain ⟨here, later⟩ := List.forall_mem_cons.mp outside
      rw [List.foldl_cons, ih _ later]
      exact store.contains_ensureDirectory here

private theorem contains_write_basePath (plain : pair.artifact.IsPlain)
    (alsoPlain : artifact.IsPlain) :
    (memory.writeBase store pair).contains artifact.leafPath = store.contains artifact.leafPath := by
  refine store.contains_write (Artifact.base_ne_leaf plain alsoPlain).symm
    (Artifact.parent?_basePath plain) (Artifact.plain_leafPath_notMem alsoPlain ?_)
  cases pair.artifact.kind <;> decide

theorem keepsLeaf_eq (plain : pair.artifact.IsPlain) :
    memory.keepsLeaf store pair = store.contains pair.artifact.leafPath := by
  rw [keepsLeaf, memory_contains, contains_write_basePath store plain plain]

/-- Emission changes nothing at a path that the artifact avoids. -/
theorem get?_emit {path : String} (avoids : pair.artifact.Avoids path) :
    (memory.emit store pair).get? path = store.get? path := by
  have base : (memory.writeBase store pair).get? path = store.get? path :=
    store.get?_write_of_ne avoids.1
  rw [emit]
  split
  · exact base
  · exact (MemoryStore.get?_write_of_ne _ avoids.2).trans base

/-- **Elsewhere nothing changes.** -/
theorem get?_emitAll {path : String} (avoid : ∀ pair ∈ pairs, pair.artifact.Avoids path) :
    (memory.emitAll store pairs).get? path = store.get? path := by
  rw [emitAll]
  induction pairs generalizing store with
  | nil => rfl
  | cons pair pairs ih =>
      obtain ⟨here, later⟩ := List.forall_mem_cons.mp avoid
      rw [List.foldl_cons, ih _ later, get?_emit store here]

theorem contains_emit (plain : pair.artifact.IsPlain) (alsoPlain : artifact.IsPlain)
    (apart : ¬pair.artifact.SharesPaths artifact) :
    (memory.emit store pair).contains artifact.leafPath = store.contains artifact.leafPath := by
  have base := contains_write_basePath store plain alsoPlain
  rw [emit]
  split
  · exact base
  · refine (MemoryStore.contains_write _ (Artifact.avoids_leafPath plain alsoPlain apart).2
      (Artifact.parent?_leafPath plain) (Artifact.plain_leafPath_notMem alsoPlain ?_)).trans base
    cases pair.artifact.kind <;> decide

/-- A pair that is emitted stands in the store afterwards. -/
theorem stands_emit (plain : pair.artifact.IsPlain) :
    pair.Stands store (memory.emit store pair) := by
  have apart := Artifact.base_ne_leaf plain plain
  have written : (memory.writeBase store pair).get? pair.artifact.basePath =
      some pair.base.render := by
    rw [writeBase]
    exact (store.get?_write _ _ _).trans (if_pos rfl)
  have kept : (memory.writeBase store pair).get? pair.artifact.leafPath =
      store.get? pair.artifact.leafPath := store.get?_write_of_ne apart.symm
  rw [emit, keepsLeaf_eq store plain]
  split
  · rename_i present
    exact ⟨written, by rw [if_pos present, kept]⟩
  · rename_i absent
    refine ⟨(MemoryStore.get?_write_of_ne _ apart).trans written, ?_⟩
    rw [if_neg absent]
    exact (MemoryStore.get?_write _ _ _ _).trans (if_pos rfl)

/-- **Nothing is lost.** Every header is found as it was rendered, if no two classes share their
paths. -/
theorem stands_emitAll (plain : ∀ pair ∈ pairs, pair.artifact.IsPlain)
    (apart : pairs.Pairwise fun pair other => ¬pair.artifact.SharesPaths other.artifact) :
    ∀ pair ∈ pairs, pair.Stands store (memory.emitAll store pairs) := by
  rw [emitAll]
  induction pairs generalizing store with
  | nil => exact List.forall_mem_nil _
  | cons pair pairs ih =>
      obtain ⟨here, later⟩ := List.forall_mem_cons.mp plain
      obtain ⟨first, rest⟩ := List.pairwise_cons.mp apart
      rw [List.foldl_cons, List.forall_mem_cons]
      constructor
      · have stands := stands_emit store here
        have base := get?_emitAll (memory.emit store pair) fun other member =>
          Artifact.avoids_basePath (later other member) here fun shares =>
            first other member shares.symm
        have leaf := get?_emitAll (memory.emit store pair) fun other member =>
          Artifact.avoids_leafPath (later other member) here fun shares =>
            first other member shares.symm
        exact ⟨base.trans stands.base, leaf.trans stands.leaf⟩
      · intro other member
        have stands := ih (memory.emit store pair) later rest other member
        have avoids := Artifact.avoids_leafPath here (later other member) (first other member)
        refine ⟨stands.base, stands.leaf.trans ?_⟩
        rw [contains_emit store here (later other member) (first other member),
          get?_emit store avoids]

theorem stands_prepare (plain : pair.artifact.IsPlain) {after : MemoryStore}
    (stands : pair.Stands (memory.prepare store) after) : pair.Stands store after := by
  refine ⟨stands.base, stands.leaf.trans ?_⟩
  rw [contains_prepare store plain, get?_prepare]

end TotalSink

end Recordgen
