import Recordgen.Proofs.PlannedHeaders

/-! # What a run leaves as it is

A run writes to the paths of its classes only. A base header may replace a file, a leaf header never
does (`FilesKept`), and since no base header stands where a leaf header stands, a leaf file that is
there stays as it is, whoever put it there (`compile_keepsFiles`).
-/

namespace Recordgen

/-- What a run that writes headers of the given classes does to the files of a store. -/
structure FilesKept (artifacts : List Artifact) (store : MemoryStore) (journal : Journal) : Prop where
  /-- The files are those from before, changed by the writes in the journal and by nothing else. -/
  replayed : journal.store.files =
    journal.writes.foldl (fun files write => setFile write.path write.contents files) store.files
  /-- No file is removed. -/
  present : store.files.map Prod.fst <+: journal.store.files.map Prod.fst
  /-- A file from before that does not stand where a base header stands is not changed. -/
  unchanged : ∀ path contents, store.get? path = some contents →
    (∀ artifact ∈ artifacts, Path.parts path ≠ Path.parts artifact.basePath) →
      journal.store.get? path = some contents
  /-- What is written is a base header, or a leaf header where there was no file. -/
  written : ∀ write ∈ journal.writes, ∃ artifact ∈ artifacts,
    write.path = artifact.basePath ∨ write.path = artifact.leafPath ∧ write.before = none

namespace FilesKept

variable {artifacts : List Artifact} {store : MemoryStore} {journal : Journal}

theorem refl (artifacts : List Artifact) (store : MemoryStore) :
    FilesKept artifacts store ⟨store, []⟩ where
  replayed := rfl
  present := List.prefix_rfl
  unchanged _ _ found _ := found
  written _ member := nomatch member

variable (kept : FilesKept artifacts store journal)

include kept

theorem congr {other : Journal} (files : other.store.files = journal.store.files)
    (writes : other.writes = journal.writes) : FilesKept artifacts store other := by
  have reads : ∀ path, other.store.get? path = journal.store.get? path := by
    intro path
    rw [MemoryStore.get?, files]
    rfl
  refine ⟨?_, ?_, ?_, ?_⟩
  · rw [files, writes]
    exact kept.replayed
  · rw [files]
    exact kept.present
  · intro path contents found foreign
    rw [reads]
    exact kept.unchanged path contents found foreign
  · rw [writes]
    exact kept.written

/-- A write keeps the files if it is to a base file or to a leaf file that is absent. -/
theorem write {artifact : Artifact} (member : artifact ∈ artifacts) {path : String}
    (contents : String)
    (allowed : path = artifact.basePath ∨
      path = artifact.leafPath ∧ journal.store.get? path = none) :
    FilesKept artifacts store (journaling.write journal path contents) where
  replayed := by
    have files := journal.store.write_files path contents
    rw [kept.replayed] at files
    refine files.trans ?_
    rw [journaling, List.foldl_append]
    rfl
  present := kept.present.trans (journal.store.paths_write path contents)
  unchanged := by
    intro other held found foreign
    have before := kept.unchanged other held found foreign
    -- A leaf header is no danger either: where it is written there was no file.
    have elsewhere : Path.parts other ≠ Path.parts path := by
      rcases allowed with rfl | ⟨-, absent⟩
      · exact foreign artifact member
      · intro same
        rw [journal.store.get?_congr same, absent] at before
        cases before
    exact (journal.store.get?_write_of_ne elsewhere).trans before
  written := by
    intro write listed
    rcases List.mem_append.mp listed with earlier | new
    · exact kept.written write earlier
    · obtain rfl := List.mem_singleton.mp new
      exact ⟨artifact, member, allowed⟩

theorem prepare : FilesKept artifacts store (journaling.prepare journal) := by
  rw [TotalSink.prepare]
  induction outputDirectories generalizing journal with
  | nil => exact kept
  | cons path paths ih =>
      rw [List.foldl_cons]
      refine ih (kept.congr ?_ ?_) <;> dsimp only [journaling]
      exact journal.store.ensureDirectory_files path

/-- Emitting a pair keeps the files. -/
theorem emit {headers : HeaderPair} (member : headers.artifact ∈ artifacts) :
    FilesKept artifacts store (journaling.emit journal headers) := by
  have base : FilesKept artifacts store (journaling.writeBase journal headers) :=
    kept.write member headers.base.render (.inl rfl)
  rw [TotalSink.emit]
  split
  · exact base
  · rename_i missing
    rw [TotalSink.keepsLeaf, journaling_contains, Bool.not_eq_true] at missing
    have absent := MemoryStore.get?_of_contains missing
    exact base.write member headers.leaf.render (.inr ⟨rfl, absent⟩)

/-- So does emitting several pairs. -/
theorem emitAll {headers : List HeaderPair}
    (members : ∀ pair ∈ headers, pair.artifact ∈ artifacts) :
    FilesKept artifacts store (journaling.emitAll journal headers) := by
  rw [TotalSink.emitAll]
  induction headers generalizing journal with
  | nil => exact kept
  | cons pair headers ih =>
      obtain ⟨here, later⟩ := List.forall_mem_cons.mp members
      rw [List.foldl_cons]
      exact ih (kept.emit here) later

end FilesKept

/-- The classes of a document. It has none if it cannot be read. -/
def documentArtifacts (text : String) : List Artifact :=
  match readDocument text with
  | .ok spec => spec.artifacts
  | .error _ => []

private theorem isPlain_of_mem_documentArtifacts {text : String} {artifact : Artifact}
    (member : artifact ∈ documentArtifacts text) : artifact.IsPlain := by
  rw [documentArtifacts] at member
  split at member
  · exact Specification.isPlain_of_mem_artifacts member
  · cases member

private theorem exists_filesKept (store : MemoryStore) (targetNamespace text : String) :
    ∃ outcome journal,
      (compileDocument journaling.toSink targetNamespace text).run ⟨store, []⟩ =
        (outcome, journal) ∧
      compileInMemory store targetNamespace text = (outcome, journal.store) ∧
      FilesKept (documentArtifacts text) store journal := by
  have start := FilesKept.refl (documentArtifacts text) store
  rw [compileInMemory, ← memory_toSink]
  cases read : readDocument text with
  | error fault =>
      rw [TotalSink.run_compileDocument_error _ _ _ read,
        TotalSink.run_compileDocument_error _ _ _ read]
      exact ⟨_, _, rfl, rfl, start⟩
  | ok spec =>
      have members : ∀ pair ∈ (spec.plan targetNamespace).headers,
          pair.artifact ∈ documentArtifacts text := by
        intro pair member
        rw [documentArtifacts, read]
        exact (Specification.artifacts_plan (linked_of_readDocument read)).1.subset
          (List.mem_map_of_mem member)
      rw [TotalSink.run_compileDocument _ _ _ read, TotalSink.run_compileDocument _ _ _ read,
        run_journaling (spec.plan targetNamespace) ⟨store, []⟩]
      refine ⟨_, _, rfl, rfl, ?_⟩
      rw [TotalSink.run_state]
      exact start.prepare.emitAll members

/-- **What a run leaves as it is.** A document is compiled into any store as into the same store with
a journal. Whether that succeeds or not, the run keeps all files and changes none that stands
elsewhere than the base headers of the document's classes. A leaf file from before stays as it is,
and no leaf header is written where there is a file, be it from before or from the same run. -/
theorem compile_keepsFiles (store : MemoryStore) (targetNamespace text : String) :
    ∃ outcome journal,
      (compileDocument journaling.toSink targetNamespace text).run ⟨store, []⟩ =
        (outcome, journal) ∧
      compileInMemory store targetNamespace text = (outcome, journal.store) ∧
      FilesKept (documentArtifacts text) store journal ∧
      ∀ artifact ∈ documentArtifacts text,
        (∀ contents, store.get? artifact.leafPath = some contents →
          journal.store.get? artifact.leafPath = some contents) ∧
        ∀ write ∈ journal.writes,
          Path.parts write.path = Path.parts artifact.leafPath → write.before = none := by
  obtain ⟨outcome, journal, ran, same, kept⟩ := exists_filesKept store targetNamespace text
  refine ⟨outcome, journal, ran, same, kept, ?_⟩
  intro artifact member
  have apart : ∀ other ∈ documentArtifacts text,
      Path.parts other.basePath ≠ Path.parts artifact.leafPath := fun other listed =>
    Artifact.base_ne_leaf (isPlain_of_mem_documentArtifacts listed)
      (isPlain_of_mem_documentArtifacts member)
  constructor
  · intro contents found
    exact kept.unchanged _ contents found fun other listed => (apart other listed).symm
  · intro write listed leaf
    obtain ⟨other, alsoMember, base | ⟨-, absent⟩⟩ := kept.written write listed
    · rw [base] at leaf
      exact absurd leaf (apart other alsoMember)
    · exact absent

end Recordgen
