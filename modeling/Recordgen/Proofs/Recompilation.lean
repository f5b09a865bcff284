import Recordgen.Proofs.PathClashes

/-! # Compiling a document again

A second run finds the output directories and all leaf headers in place, so all it does is to write
the base headers once more. Two classes may share their paths, and then the base header of the first
one is put back on the way, but the run that wrote the store has ended with the last one as well:
in the end nothing has changed (`TotalSink.rewriteBases_emitAll`), and only the report tells that no
leaf header was created (`compile_again`).
-/

namespace Recordgen

open Outcome

variable {path other : String} {files : List (String × String)}

/-- The places of files, whatever the spelling of their paths. -/
def filePlaces (files : List (String × String)) : List (List String) :=
  files.map fun file => Path.parts file.1

private theorem setFile_nil (path contents : String) :
    setFile path contents [] = [(path, contents)] :=
  rfl

private theorem setFile_cons (path contents : String) (file : String × String)
    (files : List (String × String)) :
    setFile path contents (file :: files) =
      if Path.parts file.1 = Path.parts path then (file.1, contents) :: files
      else file :: setFile path contents files :=
  rfl

private theorem mem_filePlaces_setFile {contents : String} :
    Path.parts other ∈ filePlaces (setFile path contents files) ↔
      Path.parts other ∈ filePlaces files ∨ Path.parts other = Path.parts path := by
  induction files with
  | nil => simp [setFile_nil, filePlaces]
  | cons file files ih =>
      rw [setFile_cons]
      by_cases here : Path.parts file.1 = Path.parts path
      · rw [if_pos here]
        simp only [filePlaces, List.map_cons, List.mem_cons, here]
        exact ⟨.inl, Or.rec id .inl⟩
      · rw [if_neg here]
        simp only [filePlaces, List.map_cons, List.mem_cons] at ih ⊢
        rw [ih, or_assoc]

/-- Of two contents that a file is given the second one remains. A file that was not there before must
be spelled in the same way twice. -/
theorem setFile_setFile (same : Path.parts path = Path.parts other)
    (spelled : path = other ∨ Path.parts other ∈ filePlaces files) (first second : String) :
    setFile path second (setFile other first files) = setFile path second files := by
  induction files with
  | nil =>
      obtain rfl := spelled.resolve_right List.not_mem_nil
      simp [setFile_nil, setFile_cons]
  | cons file files ih =>
      rw [setFile_cons, setFile_cons, ← same]
      by_cases here : Path.parts file.1 = Path.parts path
      · simp [here, setFile_cons]
      · have later : path = other ∨ Path.parts other ∈ filePlaces files := by
          refine spelled.imp_right fun member => (List.mem_cons.mp member).resolve_left ?_
          exact fun found => here (found.symm.trans same.symm)
        simp [here, setFile_cons, ih later]

/-- Files at different places can be set in either order, if the first one was there before. -/
theorem setFile_comm (different : Path.parts path ≠ Path.parts other)
    (present : Path.parts path ∈ filePlaces files) (first second : String) :
    setFile path first (setFile other second files) =
      setFile other second (setFile path first files) := by
  induction files with
  | nil => cases present
  | cons file files ih =>
      rw [setFile_cons, setFile_cons path]
      by_cases here : Path.parts file.1 = Path.parts path
      · simp [here, setFile_cons, different]
      · have later : Path.parts path ∈ filePlaces files :=
          (List.mem_cons.mp present).resolve_left fun found => here found.symm
        by_cases found : Path.parts file.1 = Path.parts other
        · simp [found, setFile_cons, different.symm]
        · simp [here, found, setFile_cons, ih later]

/-- The files once base headers are written over those that are there. -/
def rewriteBases (pairs : List HeaderPair) (files : List (String × String)) :
    List (String × String) :=
  pairs.foldl (fun files pair => setFile pair.artifact.basePath pair.base.render files) files

private theorem rewriteBases_cons (pair : HeaderPair) (pairs : List HeaderPair)
    (files : List (String × String)) :
    rewriteBases (pair :: pairs) files =
      rewriteBases pairs (setFile pair.artifact.basePath pair.base.render files) :=
  rfl

/-- Base headers of all these classes are there. -/
def HasBases (pairs : List HeaderPair) (files : List (String × String)) : Prop :=
  ∀ pair ∈ pairs, Path.parts pair.artifact.basePath ∈ filePlaces files

section

variable {pairs : List HeaderPair} {files : List (String × String)}

/-- A base file is not lost when something is written. -/
theorem HasBases.setFile (bases : HasBases pairs files) (path contents : String) :
    HasBases pairs (setFile path contents files) :=
  fun pair member => mem_filePlaces_setFile.mpr (.inl (bases pair member))

/-- Base headers can be written over before or after another file is set. -/
theorem rewriteBases_setFile {path : String} (bases : HasBases pairs files)
    (elsewhere : ∀ pair ∈ pairs, Path.parts pair.artifact.basePath ≠ Path.parts path)
    (contents : String) :
    rewriteBases pairs (setFile path contents files) =
      setFile path contents (rewriteBases pairs files) := by
  unfold rewriteBases
  induction pairs generalizing files with
  | nil => rfl
  | cons pair pairs ih =>
      obtain ⟨here, later⟩ := List.forall_mem_cons.mp bases
      obtain ⟨apart, rest⟩ := List.forall_mem_cons.mp elsewhere
      rw [List.foldl_cons, List.foldl_cons, setFile_comm apart here]
      apply ih _ rest
      exact HasBases.setFile later _ _

/-- A file that is set in the end need not be set before. -/
theorem setFile_rewriteBases (path contents : String) (bases : HasBases pairs files) :
    setFile path contents (rewriteBases pairs (setFile path contents files)) =
      setFile path contents (rewriteBases pairs files) := by
  unfold rewriteBases
  induction pairs generalizing files with
  | nil => exact setFile_setFile rfl (.inl rfl) contents contents
  | cons pair pairs ih =>
      obtain ⟨here, later⟩ := List.forall_mem_cons.mp bases
      rw [List.foldl_cons, List.foldl_cons]
      by_cases same : Path.parts pair.artifact.basePath = Path.parts path
      · -- The base header stands at the path itself, so it hides what was set there.
        rw [setFile_setFile same (.inr (same ▸ here))]
      · rw [setFile_comm same here]
        apply ih
        exact HasBases.setFile later _ _

end

namespace MemoryStore

variable (store : MemoryStore)

private theorem ensureDirectory_of_subset {path : String}
    (present : stages path ⊆ store.directories) :
    store.ensureDirectory path = store := by
  unfold ensureDirectory
  generalize stages path = needed at present ⊢
  induction needed with
  | nil => rfl
  | cons plain needed ih =>
      obtain ⟨here, later⟩ := List.cons_subset.mp present
      have kept : store.addDirectory plain = store := by
        rw [addDirectory, if_pos (List.contains_iff_mem.mpr here)]
      rw [List.foldl_cons, kept, ih later]

/-- A file in a directory that is there adds no directory. -/
theorem write_of_subset {path parent : String} (held : Path.parent? path = some parent)
    (present : stages parent ⊆ store.directories) (contents : String) :
    store.write path contents = { store with files := setFile path contents store.files } := by
  unfold write
  rw [held]
  simp only [store.ensureDirectory_of_subset present]

/-- Nothing that is there disappears when a file is written. -/
theorem contains_write_of_contains {other : String} (path contents : String)
    (present : store.contains other = true) : (store.write path contents).contains other = true := by
  rw [contains, Bool.or_eq_true, List.contains_iff_mem] at present ⊢
  rcases present with file | directory
  · left
    rw [get?_write]
    split
    · rfl
    · exact file
  · right
    exact store.mem_directories_write.mpr (.inl directory)

private theorem contains_write_self (path contents : String) :
    (store.write path contents).contains path = true := by
  rw [contains, get?_write, if_pos rfl]
  rfl

/-- The output directories are there. -/
def IsPrepared : Prop :=
  ∀ directory ∈ outputDirectories, stages directory ⊆ store.directories

theorem IsPrepared.mono {store after : MemoryStore} (prepared : store.IsPrepared)
    (kept : store.directories ⊆ after.directories) : after.IsPrepared :=
  fun directory member _ needed => kept (prepared directory member needed)

/-- A write keeps the directories that are prepared. -/
theorem IsPrepared.write {store : MemoryStore} (prepared : store.IsPrepared)
    (path contents : String) : (store.write path contents).IsPrepared :=
  prepared.mono fun _ member => store.mem_directories_write.mpr (.inl member)

end MemoryStore

private theorem memory_ensureDirectory (store : MemoryStore) (path : String) :
    memory.ensureDirectory store path = store.ensureDirectory path :=
  rfl

theorem memory_write (store : MemoryStore) (path contents : String) :
    memory.write store path contents = store.write path contents :=
  rfl

namespace TotalSink

private theorem emitAll_cons (total : TotalSink σ) (state : σ) (pair : HeaderPair)
    (pairs : List HeaderPair) :
    total.emitAll state (pair :: pairs) = total.emitAll (total.emit state pair) pairs :=
  rfl

private theorem emitAll_concat (total : TotalSink σ) (state : σ) (pairs : List HeaderPair)
    (pair : HeaderPair) :
    total.emitAll state (pairs ++ [pair]) = total.emit (total.emitAll state pairs) pair :=
  List.foldl_append

variable {store : MemoryStore} {pair : HeaderPair} {pairs : List HeaderPair} {σ : Type}

variable (store) in
private theorem isPrepared_prepare : (memory.prepare store).IsPrepared := by
  intro directory member
  unfold prepare
  generalize outputDirectories = directories at member ⊢
  -- What one directory needs is kept when the later ones are created.
  have kept : ∀ (directories : List String) (store : MemoryStore),
      store.directories ⊆ (directories.foldl memory.ensureDirectory store).directories := by
    intro directories
    induction directories with
    | nil => exact fun _ => List.Subset.refl _
    | cons other directories ih =>
        intro store plain there
        apply ih
        rw [memory_ensureDirectory]
        exact store.mem_directories_ensureDirectory.mpr (.inl there)
  induction directories generalizing store with
  | nil => cases member
  | cons other directories ih =>
      rw [List.foldl_cons]
      rcases List.mem_cons.mp member with rfl | later
      · intro plain needed
        apply kept
        rw [memory_ensureDirectory]
        exact store.mem_directories_ensureDirectory.mpr (.inr needed)
      · exact ih _ later

private theorem prepare_of_isPrepared (prepared : store.IsPrepared) :
    memory.prepare store = store := by
  unfold prepare MemoryStore.IsPrepared at *
  generalize outputDirectories = directories at prepared ⊢
  induction directories with
  | nil => rfl
  | cons directory directories ih =>
      obtain ⟨here, later⟩ := List.forall_mem_cons.mp prepared
      rw [List.foldl_cons, memory_ensureDirectory, store.ensureDirectory_of_subset here, ih later]

private theorem isPrepared_emit (prepared : store.IsPrepared) (pair : HeaderPair) :
    (memory.emit store pair).IsPrepared := by
  rw [emit, writeBase, memory_write, memory_write]
  split
  · exact prepared.write _ _
  · exact (prepared.write _ _).write _ _

private theorem isPrepared_emitAll (prepared : store.IsPrepared) (pairs : List HeaderPair) :
    (memory.emitAll store pairs).IsPrepared := by
  induction pairs generalizing store with
  | nil => exact prepared
  | cons pair pairs ih =>
      rw [emitAll_cons]
      exact ih (isPrepared_emit prepared pair)

private theorem contains_emit_of_contains {path : String} (present : store.contains path = true)
    (pair : HeaderPair) : (memory.emit store pair).contains path = true := by
  have base := store.contains_write_of_contains pair.artifact.basePath pair.base.render present
  rw [emit, writeBase, memory_write, memory_write]
  split
  · exact base
  · exact MemoryStore.contains_write_of_contains _ _ _ base

private theorem contains_emitAll_of_contains {path : String} (present : store.contains path = true)
    (pairs : List HeaderPair) : (memory.emitAll store pairs).contains path = true := by
  induction pairs generalizing store with
  | nil => exact present
  | cons pair pairs ih =>
      rw [emitAll_cons]
      exact ih (contains_emit_of_contains present pair)

/-- A leaf header is there once its class was emitted, written or kept. -/
theorem contains_leafPath_emit (store : MemoryStore) (pair : HeaderPair) :
    (memory.emit store pair).contains pair.artifact.leafPath = true := by
  rw [emit, keepsLeaf, memory_contains, memory_write]
  split
  · rename_i kept
    exact kept
  · exact MemoryStore.contains_write_self _ _ _

/-- **Leaf headers.** After a run each of them is there. -/
theorem contains_leafPath_emitAll (store : MemoryStore) :
    ∀ pair ∈ pairs, (memory.emitAll store pairs).contains pair.artifact.leafPath = true := by
  induction pairs generalizing store with
  | nil => exact List.forall_mem_nil _
  | cons first pairs ih =>
      rw [emitAll_cons, List.forall_mem_cons]
      constructor
      · exact contains_emitAll_of_contains (contains_leafPath_emit store first) pairs
      · exact ih (memory.emit store first)

private theorem emit_of_contains (plain : pair.artifact.IsPlain) (prepared : store.IsPrepared)
    (present : store.contains pair.artifact.leafPath = true) :
    memory.emit store pair =
      { store with files := setFile pair.artifact.basePath pair.base.render store.files } := by
  have listed : pair.artifact.kind.directory ++ "/base" ∈ outputDirectories := by
    cases pair.artifact.kind <;> decide
  rw [emit, if_pos ((keepsLeaf_eq store plain).trans present), writeBase, memory_write]
  exact store.write_of_subset (Artifact.parent?_basePath plain) (prepared _ listed) _

/-- A run that finds all leaf headers writes over base headers. -/
theorem emitAll_of_contains (plain : ∀ pair ∈ pairs, pair.artifact.IsPlain)
    (prepared : store.IsPrepared)
    (present : ∀ pair ∈ pairs, store.contains pair.artifact.leafPath = true) :
    memory.emitAll store pairs = { store with files := rewriteBases pairs store.files } := by
  induction pairs generalizing store with
  | nil => rfl
  | cons first pairs ih =>
      obtain ⟨here, later⟩ := List.forall_mem_cons.mp plain
      obtain ⟨found, rest⟩ := List.forall_mem_cons.mp present
      have emitted := emit_of_contains here prepared found
      have next := ih later (isPrepared_emit prepared first) fun pair member =>
        contains_emit_of_contains (rest pair member) first
      rw [emitted] at next
      rw [emitAll_cons, emitted, next, rewriteBases_cons]

private theorem files_emit (plain : pair.artifact.IsPlain) :
    (memory.emit store pair).files =
      if store.contains pair.artifact.leafPath then
        setFile pair.artifact.basePath pair.base.render store.files
      else setFile pair.artifact.leafPath pair.leaf.render
        (setFile pair.artifact.basePath pair.base.render store.files) := by
  rw [emit, keepsLeaf_eq store plain, writeBase, memory_write, memory_write]
  split
  · exact store.write_files _ _
  · rw [MemoryStore.write_files, MemoryStore.write_files]

private theorem hasBases_emit (plain : pair.artifact.IsPlain) (bases : HasBases pairs store.files) :
    HasBases (pairs ++ [pair]) (memory.emit store pair).files := by
  have written : HasBases (pairs ++ [pair])
      (setFile pair.artifact.basePath pair.base.render store.files) := by
    intro other member
    rw [mem_filePlaces_setFile]
    rcases List.mem_append.mp member with before | last
    · exact .inl (bases other before)
    · exact .inr (by rw [List.mem_singleton.mp last])
  rw [files_emit plain]
  split
  · exact written
  · exact written.setFile _ _

/-- **Writing base headers over changes nothing**, once a run has put them all there. -/
theorem rewriteBases_emitAll (store : MemoryStore) (plain : ∀ pair ∈ pairs, pair.artifact.IsPlain) :
    HasBases pairs (memory.emitAll store pairs).files ∧
      rewriteBases pairs (memory.emitAll store pairs).files = (memory.emitAll store pairs).files := by
  induction pairs using List.reverseRecOn with
  | nil => exact ⟨List.forall_mem_nil _, rfl⟩
  | append_singleton pairs last ih =>
      obtain ⟨before, now⟩ := List.forall_mem_append.mp plain
      obtain ⟨bases, unchanged⟩ := ih before
      have here := List.forall_mem_singleton.mp now
      have split : ∀ files, rewriteBases (pairs ++ [last]) files =
          setFile last.artifact.basePath last.base.render (rewriteBases pairs files) :=
        fun files => List.foldl_append
      rw [emitAll_concat]
      refine ⟨hasBases_emit here bases, ?_⟩
      -- The headers so far are put back around the last base header, which is then set once more.
      have base : rewriteBases (pairs ++ [last])
          (setFile last.artifact.basePath last.base.render (memory.emitAll store pairs).files) =
            setFile last.artifact.basePath last.base.render (memory.emitAll store pairs).files := by
        rw [split, setFile_rewriteBases _ _ bases, unchanged]
      rw [files_emit here]
      by_cases kept : (memory.emitAll store pairs).contains last.artifact.leafPath = true
      · rw [if_pos kept, base]
      · rw [if_neg kept, rewriteBases_setFile, base]
        · intro pair member
          rw [mem_filePlaces_setFile]
          rcases List.mem_append.mp member with inside | same
          · exact .inl (bases pair inside)
          · exact .inr (by rw [List.mem_singleton.mp same])
        · exact fun pair member => Artifact.base_ne_leaf (plain pair member) here

/-- A second run leaves the store as it is. -/
theorem emitAll_emitAll (store : MemoryStore) (plain : ∀ pair ∈ pairs, pair.artifact.IsPlain) :
    memory.emitAll (memory.prepare (memory.emitAll (memory.prepare store) pairs)) pairs =
      memory.emitAll (memory.prepare store) pairs := by
  have prepared := isPrepared_emitAll (isPrepared_prepare store) pairs
  rw [prepare_of_isPrepared prepared,
    emitAll_of_contains plain prepared (contains_leafPath_emitAll (memory.prepare store)),
    (rewriteBases_emitAll (memory.prepare store) plain).2]

/-- What is reported besides headers depends on the plan alone. -/
theorem run_notes (total : TotalSink σ) (plan : Plan) (state other : σ) :
    (total.run plan state).1.skippedSequences = (total.run plan other).1.skippedSequences ∧
      (total.run plan state).1.warnings = (total.run plan other).1.warnings := by
  have folded : ∀ (steps : List PlanStep) (first second : Report × σ),
      first.1.skippedSequences = second.1.skippedSequences → first.1.warnings = second.1.warnings →
        (steps.foldl total.take first).1.skippedSequences =
            (steps.foldl total.take second).1.skippedSequences ∧
          (steps.foldl total.take first).1.warnings =
            (steps.foldl total.take second).1.warnings := by
    intro steps
    induction steps with
    | nil => exact fun _ _ skipped warnings => ⟨skipped, warnings⟩
    | cons step steps ih =>
        intro first second skipped warnings
        rw [List.foldl_cons, List.foldl_cons]
        cases step with
        | write headers =>
            have quiet : ∀ current : Report × σ,
                (total.take current (.write headers)).1.skippedSequences =
                    current.1.skippedSequences ∧
                  (total.take current (.write headers)).1.warnings = current.1.warnings := by
              intro current
              simp only [take, note]
              split <;> exact ⟨rfl, rfl⟩
            apply ih
            · rw [(quiet first).1, (quiet second).1, skipped]
            · rw [(quiet first).2, (quiet second).2, warnings]
        | skip sequence => exact ih _ _ (congrArg (· ++ [sequence]) skipped) warnings
        | warn warning => exact ih _ _ skipped (congrArg (· ++ [warning]) warnings)
  exact folded plan.steps _ _ rfl rfl

/-- A class whose leaf header is there is reported with that header kept. -/
theorem take_of_contains (current : Report × MemoryStore) (plain : pair.artifact.IsPlain)
    (present : current.2.contains pair.artifact.leafPath = true) :
    memory.take current (.write pair) =
      ({ current.1 with
          baseWritten := current.1.baseWritten ++ [pair.artifact.basePath]
          leafSkipped := current.1.leafSkipped ++ [pair.artifact.leafPath] },
        memory.emit current.2 pair) := by
  have kept := (keepsLeaf_eq current.2 plain).trans present
  simp only [take, note, kept, if_true, PlanStep.headers?, Option.toList_some, emitAll,
    List.foldl_cons, List.foldl_nil]

/-- Steps that find all leaf headers report them as kept. -/
theorem foldl_take_of_contains (steps : List PlanStep) (current : Report × MemoryStore)
    (present : ∀ pair ∈ steps.filterMap PlanStep.headers?, pair.artifact.IsPlain ∧
      current.2.contains pair.artifact.leafPath = true) :
    (steps.foldl memory.take current).1.leafCreated = current.1.leafCreated ∧
      (steps.foldl memory.take current).1.leafSkipped = current.1.leafSkipped ++
        (steps.filterMap PlanStep.headers?).map fun headers => headers.artifact.leafPath := by
  induction steps generalizing current with
  | nil => exact ⟨rfl, (List.append_nil _).symm⟩
  | cons step steps ih =>
      rw [List.foldl_cons]
      cases step with
      | write headers =>
          have first : (PlanStep.write headers).headers? = some headers := rfl
          rw [List.filterMap_cons_some first] at present ⊢
          obtain ⟨⟨plain, found⟩, rest⟩ := List.forall_mem_cons.mp present
          rw [take_of_contains current plain found]
          have later : ∀ pair ∈ steps.filterMap PlanStep.headers?, pair.artifact.IsPlain ∧
              (memory.emit current.2 headers).contains pair.artifact.leafPath = true :=
            fun pair member => ⟨(rest pair member).1,
              contains_emit_of_contains (rest pair member).2 headers⟩
          generalize memory.emit current.2 headers = next at later ⊢
          obtain ⟨created, skipped⟩ := ih (_, next) later
          rw [created, skipped, List.map_cons, List.append_assoc]
          exact ⟨rfl, rfl⟩
      | skip sequence =>
          rw [show memory.take current (.skip sequence) = (_, current.2) from rfl]
          exact ih (_, current.2) present
      | warn warning =>
          rw [show memory.take current (.warn warning) = (_, current.2) from rfl]
          exact ih (_, current.2) present

private theorem run_leaves_of_contains {plan : Plan}
    (plain : ∀ pair ∈ plan.headers, pair.artifact.IsPlain)
    (present : ∀ pair ∈ plan.headers,
      (memory.prepare store).contains pair.artifact.leafPath = true) :
    (memory.run plan store).1.leafCreated = [] ∧
      (memory.run plan store).1.leafSkipped =
        plan.headers.map fun headers => headers.artifact.leafPath := by
  rw [run]
  generalize memory.prepare store = prepared at present ⊢
  exact foldl_take_of_contains plan.steps ({}, prepared) fun pair member =>
    ⟨plain pair member, present pair member⟩

end TotalSink

/-- **Compiling again.** A document that was compiled into a store can be compiled into it once more.
That changes neither a file nor a directory, and it is reported in the same way, but for the leaf
headers: none is created, and those of all classes are kept. -/
theorem compile_again {store after : MemoryStore} {targetNamespace text : String} {report : Report}
    (compiled : compileInMemory store targetNamespace text = (.ok report, after)) :
    ∃ spec, readDocument text = .ok spec ∧
      compileInMemory after targetNamespace text =
        (.ok { report with
          leafCreated := []
          leafSkipped := spec.artifacts.map Artifact.leafPath }, after) := by
  obtain ⟨spec, read, headers, written, final⟩ := exists_plan_of_compiled compiled
  have plain : ∀ pair ∈ (spec.plan targetNamespace).headers, pair.artifact.IsPlain := fun pair member =>
    Specification.isPlain_of_mem_artifacts (headers ▸ List.mem_map_of_mem member)
  have present : ∀ pair ∈ (spec.plan targetNamespace).headers,
      (memory.prepare after).contains pair.artifact.leafPath = true := by
    intro pair member
    rw [TotalSink.contains_prepare after (plain pair member), final]
    exact TotalSink.contains_leafPath_emitAll _ pair member
  rw [compileInMemory, ← memory_toSink, TotalSink.run_compileDocument _ _ _ read] at compiled
  obtain ⟨complete, reported⟩ := Plan.ending_eq_ok_iff.mp (congrArg Prod.fst compiled)
  refine ⟨spec, read, ?_⟩
  rw [compileInMemory, ← memory_toSink, TotalSink.run_compileDocument _ _ _ read]
  apply Prod.ext
  · rw [Plan.ending_eq_ok_iff]
    refine ⟨complete, ?_⟩
    obtain ⟨skipped, warnings⟩ := memory.run_notes (spec.plan targetNamespace) after store
    obtain ⟨created, kept⟩ := TotalSink.run_leaves_of_contains plain present
    have bases := memory.run_baseWritten (spec.plan targetNamespace) after
    rw [← memory.run_baseWritten (spec.plan targetNamespace) store, reported] at bases
    rw [reported] at skipped warnings
    have leaves : (spec.plan targetNamespace).headers.map (fun pair => pair.artifact.leafPath) =
        spec.artifacts.map Artifact.leafPath := by
      rw [← headers, List.map_map]
      rfl
    rw [leaves] at kept
    generalize (memory.run (spec.plan targetNamespace) after).1 = second at *
    cases second
    simp_all
  · rw [TotalSink.run_state]
    dsimp only
    rw [final]
    exact TotalSink.emitAll_emitAll store plain

section

open Prototype.Sample

/-- Also where the classes of two sequences share all their paths. -/
theorem clashing_keys_compile_again :
    ∃ spec report after, readDocument (bareText ["a", "A"]) = .ok spec ∧
      compileInMemory {} "Shop" (bareText ["a", "A"]) = (.ok report, after) ∧
      compileInMemory after "Shop" (bareText ["a", "A"]) =
        (.ok { report with
          leafCreated := []
          leafSkipped := spec.artifacts.map Artifact.leafPath }, after) := by
  obtain ⟨_, report, after, -, -, compiled⟩ := exists_compiled_clashing
  obtain ⟨spec, read, again⟩ := compile_again compiled
  exact ⟨spec, report, after, read, compiled, again⟩

end

end Recordgen
