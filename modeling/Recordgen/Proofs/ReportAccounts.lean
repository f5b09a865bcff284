import Recordgen.Proofs.IncludeClosure
import Recordgen.Proofs.Recompilation

/-! # What a report says about the store

A report lists what a run has written and left out. It is kept step by step along with the store, and
every step leaves the two in agreement (`Accounts.take`): the files are those from before, the base
headers written and the leaf headers created, and a leaf header is created exactly if there was
nothing at its path before the run and no class in front of it has put its own there
(`LeavesReported`). So at the end the report accounts for the store (`compile_accounts`).
-/

namespace Recordgen

open Outcome

/-- The leaf headers of classes as a run into a store reports them, one class after the other: the
paths created and the paths skipped. -/
inductive LeavesReported (store : MemoryStore) :
    List Artifact → (created skipped : List String) → Prop
  | none : LeavesReported store [] [] []
  /-- There was nothing at the path before the run, and nothing has been created there since. -/
  | create {artifacts : List Artifact} {created skipped : List String} (artifact : Artifact)
      (before : LeavesReported store artifacts created skipped)
      (absent : store.contains artifact.leafPath = false)
      (fresh : ∀ path ∈ created, Path.parts path ≠ Path.parts artifact.leafPath) :
      LeavesReported store (artifacts ++ [artifact]) (created ++ [artifact.leafPath]) skipped
  /-- There was a file or a directory at the path before the run, or one has been created there
  since. -/
  | skip {artifacts : List Artifact} {created skipped : List String} (artifact : Artifact)
      (before : LeavesReported store artifacts created skipped)
      (present : store.contains artifact.leafPath = true ∨
        ∃ path ∈ created, Path.parts path = Path.parts artifact.leafPath) :
      LeavesReported store (artifacts ++ [artifact]) created (skipped ++ [artifact.leafPath])

namespace LeavesReported

variable {store : MemoryStore} {artifacts : List Artifact} {created skipped : List String}

/-- The files created and those skipped are as many as the artifacts. -/
theorem length_eq (reported : LeavesReported store artifacts created skipped) :
    created.length + skipped.length = artifacts.length := by
  induction reported with
  | none => rfl
  | create artifact _ _ _ ih =>
      simp only [List.length_append, List.length_singleton]
      omega
  | skip artifact _ _ ih =>
      simp only [List.length_append, List.length_singleton]
      omega

private theorem absent_of_created (reported : LeavesReported store artifacts created skipped) :
    ∀ path ∈ created, store.contains path = false := by
  induction reported with
  | none => exact List.forall_mem_nil _
  | create artifact _ absent _ ih =>
      exact List.forall_mem_append.mpr ⟨ih, List.forall_mem_singleton.mpr absent⟩
  | skip artifact _ _ ih => exact ih

private theorem present_of_skipped (reported : LeavesReported store artifacts created skipped) :
    ∀ path ∈ skipped, store.contains path = true ∨
      ∃ earlier ∈ created, Path.parts earlier = Path.parts path := by
  induction reported with
  | none => exact List.forall_mem_nil _
  | create artifact _ _ _ ih =>
      intro path member
      refine (ih path member).imp_right ?_
      rintro ⟨earlier, listed, same⟩
      exact ⟨earlier, List.mem_append_left _ listed, same⟩
  | skip artifact _ present ih =>
      exact List.forall_mem_append.mpr ⟨ih, List.forall_mem_singleton.mpr present⟩

end LeavesReported

/-- The sequence that a step leaves out. -/
def PlanStep.skipped? : PlanStep → Option SkippedSequence
  | .skip sequence => some sequence
  | .write _ | .warn _ => none

/-- The text was rendered last for the path, by the classes emitted in the given order. -/
def RenderedLast (pairs : List HeaderPair) (path text : String) : Prop :=
  ∃ before pair later, pairs = before ++ pair :: later ∧
    Path.parts pair.artifact.basePath = Path.parts path ∧ pair.base.render = text ∧
    ∀ other ∈ later, Path.parts other.artifact.basePath ≠ Path.parts path

namespace RenderedLast

variable {pairs : List HeaderPair} {path text : String}

theorem now (pairs : List HeaderPair) (pair : HeaderPair)
    (same : Path.parts pair.artifact.basePath = Path.parts path) :
    RenderedLast (pairs ++ [pair]) path pair.base.render :=
  ⟨pairs, pair, [], rfl, same, rfl, List.forall_mem_nil _⟩

/-- A later pair at another path does not replace what was rendered. -/
theorem still (rendered : RenderedLast pairs path text) {pair : HeaderPair}
    (other : Path.parts pair.artifact.basePath ≠ Path.parts path) :
    RenderedLast (pairs ++ [pair]) path text := by
  obtain ⟨before, last, later, rfl, same, spelled, rest⟩ := rendered
  refine ⟨before, last, later ++ [pair], by simp, same, spelled, ?_⟩
  exact List.forall_mem_append.mpr ⟨rest, List.forall_mem_singleton.mpr other⟩

end RenderedLast

/-- A report and a store after some steps of a run that began with the store `store`. -/
structure Accounts (store : MemoryStore) (steps : List PlanStep) (report : Report)
    (after : MemoryStore) : Prop where
  plain : ∀ pair ∈ steps.filterMap PlanStep.headers?, pair.artifact.IsPlain
  bases : report.baseWritten =
    (steps.filterMap PlanStep.headers?).map fun pair => pair.artifact.basePath
  leaves : LeavesReported store ((steps.filterMap PlanStep.headers?).map HeaderPair.artifact)
    report.leafCreated report.leafSkipped
  skipped : report.skippedSequences = steps.filterMap PlanStep.skipped?
  /-- The files are those from before and those that are reported as written. -/
  files : ∀ path, (after.get? path).isSome ↔ (store.get? path).isSome ∨
    ∃ written ∈ report.baseWritten ++ report.leafCreated, Path.parts written = Path.parts path
  /-- A base header holds the text that was rendered last for its path. -/
  texts : ∀ path ∈ report.baseWritten, ∃ text, after.get? path = some text ∧
    RenderedLast (steps.filterMap PlanStep.headers?) path text
  /-- Nothing but leaf headers comes to stand where leaf headers stand. -/
  contained : ∀ artifact : Artifact, artifact.IsPlain →
    (after.contains artifact.leafPath = true ↔ store.contains artifact.leafPath = true ∨
      ∃ path ∈ report.leafCreated, Path.parts path = Path.parts artifact.leafPath)

namespace TotalSink

variable {store : MemoryStore} {pair : HeaderPair} {path : String}

/-- Emitting a class adds its base header, and its leaf header where there was nothing. -/
theorem isSome_get?_emit_iff (plain : pair.artifact.IsPlain) :
    ((memory.emit store pair).get? path).isSome ↔
      (store.get? path).isSome ∨ Path.parts pair.artifact.basePath = Path.parts path ∨
        store.contains pair.artifact.leafPath = false ∧
          Path.parts pair.artifact.leafPath = Path.parts path := by
  have base : ((memory.writeBase store pair).get? path).isSome ↔
      (store.get? path).isSome ∨ Path.parts pair.artifact.basePath = Path.parts path := by
    rw [writeBase, memory_write, MemoryStore.get?_write]
    by_cases same : Path.parts path = Path.parts pair.artifact.basePath
    · simp [same]
    · simp [same, Ne.symm same]
  rw [emit, keepsLeaf_eq store plain]
  cases present : store.contains pair.artifact.leafPath with
  | true => simpa using base
  | false =>
      rw [if_neg Bool.false_ne_true, memory_write, MemoryStore.get?_write]
      by_cases same : Path.parts path = Path.parts pair.artifact.leafPath
      · simp [same]
      · simp only [if_neg same, base, Ne.symm same, and_false, or_false]

/-- Emitting a class changes no other base header. -/
theorem get?_emit_basePath (plain : pair.artifact.IsPlain) {other : Artifact}
    (alsoPlain : other.IsPlain) :
    (memory.emit store pair).get? other.basePath =
      if Path.parts other.basePath = Path.parts pair.artifact.basePath then some pair.base.render
      else store.get? other.basePath := by
  have base : (memory.writeBase store pair).get? other.basePath =
      if Path.parts other.basePath = Path.parts pair.artifact.basePath then some pair.base.render
      else store.get? other.basePath := by
    rw [writeBase, memory_write, MemoryStore.get?_write]
  rw [emit]
  split
  · exact base
  · rw [memory_write, MemoryStore.get?_write_of_ne _ (Artifact.base_ne_leaf alsoPlain plain), base]

private theorem contains_leafPath_emit_iff (plain : pair.artifact.IsPlain) {artifact : Artifact}
    (alsoPlain : artifact.IsPlain) :
    (memory.emit store pair).contains artifact.leafPath = true ↔
      store.contains artifact.leafPath = true ∨
        Path.parts pair.artifact.leafPath = Path.parts artifact.leafPath := by
  rw [Artifact.parts_leafPath_eq_iff plain alsoPlain]
  by_cases shares : pair.artifact.SharesPaths artifact
  · refine iff_of_true ?_ (.inr shares)
    rw [← shares.leafPath_eq]
    exact contains_leafPath_emit store pair
  · rw [contains_emit store plain alsoPlain shares, or_iff_left shares]

/-- A class whose leaf header is missing is reported with that header created. -/
theorem take_of_absent (current : Report × MemoryStore) (plain : pair.artifact.IsPlain)
    (absent : current.2.contains pair.artifact.leafPath = false) :
    memory.take current (.write pair) =
      ({ current.1 with
          baseWritten := current.1.baseWritten ++ [pair.artifact.basePath]
          leafCreated := current.1.leafCreated ++ [pair.artifact.leafPath] },
        memory.emit current.2 pair) := by
  have missing := (keepsLeaf_eq current.2 plain).trans absent
  simp only [take, note, missing, Bool.false_eq_true, if_false, PlanStep.headers?,
    Option.toList_some, emitAll, List.foldl_cons, List.foldl_nil]

end TotalSink

namespace Accounts

variable {store after : MemoryStore} {steps : List PlanStep} {report : Report}

/-- Before the first step nothing is reported, and the output directories are no files. -/
theorem start (store : MemoryStore) : Accounts store [] {} (memory.prepare store) where
  plain := List.forall_mem_nil _
  bases := rfl
  leaves := .none
  skipped := rfl
  files path := by
    rw [TotalSink.get?_prepare]
    simp
  texts := List.forall_mem_nil _
  contained artifact plain := by
    rw [TotalSink.contains_prepare store plain]
    simp

private theorem headers_concat (steps : List PlanStep) (pair : HeaderPair) :
    (steps ++ [PlanStep.write pair]).filterMap PlanStep.headers? =
      steps.filterMap PlanStep.headers? ++ [pair] :=
  List.filterMap_append

section

variable (accounts : Accounts store steps report after) {step : PlanStep}

include accounts

/-- A class is emitted. What its leaf header is reported as is left to the caller, who says which
paths are reported as created then. -/
theorem emit {pair : HeaderPair}
    (plain : pair.artifact.IsPlain) {created skipped : List String}
    (leaves : LeavesReported store
      ((steps.filterMap PlanStep.headers?).map HeaderPair.artifact ++ [pair.artifact]) created skipped)
    (added : ∀ path, path ∈ created ↔ path ∈ report.leafCreated ∨
      after.contains pair.artifact.leafPath = false ∧ path = pair.artifact.leafPath) :
    Accounts store (steps ++ [.write pair])
      { report with
        baseWritten := report.baseWritten ++ [pair.artifact.basePath]
        leafCreated := created
        leafSkipped := skipped }
      (memory.emit after pair) where
  plain := by
    rw [headers_concat]
    exact List.forall_mem_append.mpr ⟨accounts.plain, List.forall_mem_singleton.mpr plain⟩
  bases := by
    rw [headers_concat, List.map_append, ← accounts.bases]
    rfl
  leaves := by
    rw [headers_concat, List.map_append]
    exact leaves
  skipped := by
    rw [List.filterMap_append, ← accounts.skipped]
    exact (List.append_nil _).symm
  files path := by
    rw [TotalSink.isSome_get?_emit_iff plain, accounts.files]
    simp only [List.mem_append, List.mem_singleton, added, or_and_right, exists_or, and_assoc,
      exists_eq_left, exists_and_left]
    rw [or_assoc, or_or_or_comm]
  texts path member := by
    rw [headers_concat]
    -- The path is that of a plain class, at which no leaf header is written.
    obtain ⟨other, alsoPlain, rfl⟩ : ∃ other : Artifact, other.IsPlain ∧ path = other.basePath := by
      rcases List.mem_append.mp member with earlier | last
      · rw [accounts.bases] at earlier
        obtain ⟨before, listed, rfl⟩ := List.mem_map.mp earlier
        exact ⟨_, accounts.plain before listed, rfl⟩
      · exact ⟨_, plain, List.mem_singleton.mp last⟩
    rw [TotalSink.get?_emit_basePath plain alsoPlain]
    by_cases same : Path.parts other.basePath = Path.parts pair.artifact.basePath
    · rw [if_pos same]
      exact ⟨_, rfl, .now _ pair same.symm⟩
    · have earlier : other.basePath ∈ report.baseWritten := by
        refine (List.mem_append.mp member).resolve_right fun last => same ?_
        rw [List.mem_singleton.mp last]
      obtain ⟨text, found, rendered⟩ := accounts.texts _ earlier
      rw [if_neg same]
      exact ⟨text, found, rendered.still (Ne.symm same)⟩
  contained artifact alsoPlain := by
    have before := accounts.contained artifact alsoPlain
    rw [TotalSink.contains_leafPath_emit_iff plain alsoPlain]
    simp only [added, or_and_right, exists_or, and_assoc, exists_and_left, exists_eq_left,
      ← or_assoc, ← before]
    refine or_congr_right' fun absent => ?_
    rw [iff_and_self, Artifact.parts_leafPath_eq_iff plain alsoPlain]
    intro shares
    rw [shares.leafPath_eq]
    exact Bool.eq_false_iff.mpr absent

/-- A step that writes nothing. -/
theorem pass {next : Report} (silent : step.headers? = none)
    (bases : next.baseWritten = report.baseWritten)
    (created : next.leafCreated = report.leafCreated) (kept : next.leafSkipped = report.leafSkipped)
    (skipped : next.skippedSequences = report.skippedSequences ++ step.skipped?.toList) :
    Accounts store (steps ++ [step]) next after := by
  have quiet : (steps ++ [step]).filterMap PlanStep.headers? =
      steps.filterMap PlanStep.headers? := by
    rw [List.filterMap_append, List.filterMap_cons_none silent, List.filterMap_nil,
      List.append_nil]
  have listed : (steps ++ [step]).filterMap PlanStep.skipped? =
      steps.filterMap PlanStep.skipped? ++ step.skipped?.toList := by
    rw [List.filterMap_append]
    cases step <;> rfl
  constructor <;> simp only [quiet, listed, bases, created, kept, skipped]
  · exact accounts.plain
  · exact accounts.bases
  · exact accounts.leaves
  · rw [accounts.skipped]
  · exact accounts.files
  · exact accounts.texts
  · exact accounts.contained

/-- **One step** keeps the report and the store in agreement. -/
theorem take (plain : ∀ pair ∈ step.headers?, pair.artifact.IsPlain) :
    Accounts store (steps ++ [step]) (memory.take (report, after) step).1
      (memory.take (report, after) step).2 := by
  cases step with
  | write pair =>
      have here : pair.artifact.IsPlain := plain pair rfl
      have known := accounts.contained pair.artifact here
      cases present : after.contains pair.artifact.leafPath with
      | true =>
          rw [TotalSink.take_of_contains (report, after) here present]
          dsimp only
          refine accounts.emit here (.skip _ accounts.leaves (known.mp present)) fun path => ?_
          simp [present]
      | false =>
          rw [TotalSink.take_of_absent (report, after) here present]
          dsimp only
          rw [present, Bool.false_eq_true, false_iff, not_or] at known
          refine accounts.emit here (.create _ accounts.leaves ?_ ?_) fun path => ?_
          · exact Bool.eq_false_iff.mpr known.1
          · exact fun path listed same => known.2 ⟨path, listed, same⟩
          · simp [present]
  | skip sequence => exact accounts.pass rfl rfl rfl rfl rfl
  | warn warning => exact accounts.pass rfl rfl rfl rfl (List.append_nil _).symm

/-- After any number of steps, the report accounts for all of them. -/
theorem foldl {later : List PlanStep}
    (plain : ∀ pair ∈ later.filterMap PlanStep.headers?, pair.artifact.IsPlain) :
    Accounts store (steps ++ later) (later.foldl memory.take (report, after)).1
      (later.foldl memory.take (report, after)).2 := by
  induction later generalizing steps report after with
  | nil =>
      rw [List.append_nil]
      exact accounts
  | cons step later ih =>
      have here : ∀ pair ∈ step.headers?, pair.artifact.IsPlain := fun pair member =>
        plain pair (List.mem_filterMap.mpr ⟨step, List.mem_cons_self, member⟩)
      have rest : ∀ pair ∈ later.filterMap PlanStep.headers?, pair.artifact.IsPlain := by
        intro pair member
        obtain ⟨other, listed, found⟩ := List.mem_filterMap.mp member
        exact plain pair (List.mem_filterMap.mpr ⟨other, List.mem_cons_of_mem _ listed, found⟩)
      have taken := accounts.take here
      rw [List.foldl_cons, List.append_cons]
      generalize memory.take (report, after) step = next at taken ⊢
      exact ih taken rest

end

/-- **A run** keeps them in agreement to its end. -/
theorem run (store : MemoryStore) {plan : Plan}
    (plain : ∀ pair ∈ plan.headers, pair.artifact.IsPlain) :
    Accounts store plan.steps (memory.run plan store).1 (memory.run plan store).2 := by
  have begun := start store
  rw [TotalSink.run]
  generalize memory.prepare store = prepared at begun ⊢
  exact begun.foldl plain

end Accounts

/-- The entry of a report for a sequence that is left out. -/
def RecordSequence.skipped? (sequence : RecordSequence) : Option SkippedSequence :=
  match sequence.kind with
  | .random => none
  | .unsupported element => some (.ofKind sequence.key element)

namespace Specification

variable {spec : Specification .resolved} {targetNamespace : String}

private theorem skipped_of_sequenceSteps {sequence : RecordSequence} {steps : List PlanStep}
    (planned : spec.sequenceSteps targetNamespace sequence = .ok steps) :
    steps.filterMap PlanStep.skipped? = sequence.skipped?.toList := by
  cases sort : sequence.kind with
  | random =>
      rw [sequenceSteps, sort] at planned
      obtain ⟨pairs, -, rfl⟩ := bind_pure_eq_ok_iff.mp planned
      rw [RecordSequence.skipped?, sort]
      refine List.filterMap_eq_nil_iff.mpr fun step member => ?_
      rcases List.mem_append.mp member with warned | written
      · obtain ⟨warning, -, rfl⟩ := List.mem_map.mp warned
        rfl
      · obtain ⟨pair, -, rfl⟩ := List.mem_map.mp written
        rfl
  | unsupported element =>
      rw [sequenceSteps, sort] at planned
      obtain rfl := Except.ok.inj planned
      rw [RecordSequence.skipped?, sort]
      rfl

section

variable {α : Type} {select : PlanStep → Option α} {picked : RecordSequence → List α}
  (each : ∀ sequence steps, spec.sequenceSteps targetNamespace sequence = .ok steps →
    steps.filterMap select = picked sequence)

include each

/-- What is picked out of the steps of a plan for sequences that does not fail. -/
theorem filterMap_of_planSequences {final : List PlanStep} {sequences : List RecordSequence}
    (complete : (spec.planSequences targetNamespace final sequences).failure = none) :
    (spec.planSequences targetNamespace final sequences).steps.filterMap select =
      sequences.flatMap picked ++ final.filterMap select := by
  induction sequences with
  | nil => rfl
  | cons sequence rest ih =>
      rw [planSequences] at complete ⊢
      cases planned : spec.sequenceSteps targetNamespace sequence with
      | error fault =>
          rw [planned] at complete
          cases complete
      | ok steps =>
          rw [planned] at complete
          dsimp only
          rw [Plan.precede, List.filterMap_append, each sequence steps planned, ih complete,
            List.flatMap_cons, List.append_assoc]

/-- What is picked out of the steps of a plan that does not fail comes from the sequences, if it is
not picked out of headers. -/
theorem filterMap_of_plan (silent : ∀ headers, select (.write headers) = none)
    (complete : (spec.plan targetNamespace).failure = none) :
    (spec.plan targetNamespace).steps.filterMap select =
      spec.sequences.toList.flatMap picked := by
  unfold plan at complete ⊢
  split at complete
  · cases complete
  · have rest := filterMap_of_planSequences each complete
    dsimp only [Plan.precede]
    rw [List.filterMap_append, rest, List.filterMap_cons_none (silent _),
      List.filterMap_cons_none (silent _), List.filterMap_nil, List.nil_append, List.append_nil]

end

private theorem skipped_of_plan (complete : (spec.plan targetNamespace).failure = none) :
    (spec.plan targetNamespace).steps.filterMap PlanStep.skipped? =
      spec.sequences.toList.filterMap RecordSequence.skipped? := by
  rw [filterMap_of_plan (fun _ _ => skipped_of_sequenceSteps) (fun _ => rfl) complete,
    List.filterMap_eq_flatMap_toList]

/-- A specification has a configuration, a subsystem and five classes for each random sequence. -/
theorem length_artifacts {phase : Phase} (spec : Specification phase) :
    spec.artifacts.length =
      2 + 5 * spec.sequences.toList.countP fun sequence => sequence.kind == .random := by
  have each : ∀ sequences : List RecordSequence,
      (sequences.flatMap RecordSequence.artifacts).length =
        5 * sequences.countP fun sequence => sequence.kind == .random := by
    intro sequences
    induction sequences with
    | nil => rfl
    | cons sequence rest ih =>
        rw [List.flatMap_cons, List.length_append, ih, List.countP_cons]
        cases sort : sequence.kind with
        | random =>
            rw [RecordSequence.artifacts_of_random sort]
            simp only [List.length_map, ArtifactKind.ofSequence, List.length_cons, List.length_nil,
              beq_self_eq_true, if_true]
            omega
        | unsupported element =>
            simp [RecordSequence.artifacts, sort]
  rw [artifacts, List.length_append, List.length_cons, each, List.length_singleton]
  omega

end Specification

/-- What a report tells about a complete run for a specification that began with one store and ended
with another. -/
structure Report.AccountsFor (report : Report) (spec : Specification .resolved)
    (targetNamespace : String) (store after : MemoryStore) : Prop where
  /-- Every class has one base header written and one leaf header created or skipped. -/
  bases : report.baseWritten.length =
    2 + 5 * spec.sequences.toList.countP fun sequence => sequence.kind == .random
  leaves : report.leafCreated.length + report.leafSkipped.length = report.baseWritten.length
  /-- The files are those from before and those that are reported as written. -/
  files : ∀ path, (after.get? path).isSome ↔ (store.get? path).isSome ∨
    ∃ written ∈ report.baseWritten ++ report.leafCreated, Path.parts written = Path.parts path
  /-- Where a leaf header was created there was nothing before. -/
  created : ∀ path ∈ report.leafCreated, store.contains path = false
  /-- Leaf headers are created or skipped class by class, and one is skipped only if there was
  something at its path before the run or a class in front of it has created it. -/
  inOrder : LeavesReported store spec.artifacts report.leafCreated report.leafSkipped
  skipped : ∀ path ∈ report.leafSkipped, store.contains path = true ∨
    ∃ earlier ∈ report.leafCreated, Path.parts earlier = Path.parts path
  /-- The unsupported sequences are listed, in document order. -/
  sequences : report.skippedSequences = spec.sequences.toList.filterMap RecordSequence.skipped?
  /-- A base header holds the text that was rendered last for its path. -/
  texts : ∀ path ∈ report.baseWritten, ∃ text, after.get? path = some text ∧
    RenderedLast (spec.plan targetNamespace).headers path text

/-- **The report accounts for the store.** -/
theorem compile_accounts {store after : MemoryStore} {targetNamespace text : String}
    {report : Report} (compiled : compileInMemory store targetNamespace text = (.ok report, after)) :
    ∃ spec, readDocument text = .ok spec ∧
      (spec.plan targetNamespace).headers.map HeaderPair.artifact = spec.artifacts ∧
      report.AccountsFor spec targetNamespace store after := by
  obtain ⟨spec, read, complete, ran⟩ := exists_complete_of_compiled compiled
  have headers := (Specification.artifacts_plan (linked_of_readDocument read)).2 complete
  have plain : ∀ pair ∈ (spec.plan targetNamespace).headers, pair.artifact.IsPlain :=
    fun pair member => Specification.isPlain_of_mem_artifacts
      (headers ▸ List.mem_map_of_mem member)
  have accounts := Accounts.run store plain
  rw [ran] at accounts
  have leaves := accounts.leaves
  have written : report.baseWritten = spec.artifacts.map Artifact.basePath := by
    rw [accounts.bases, ← headers, List.map_map]
    rfl
  have counted : report.baseWritten.length = spec.artifacts.length := by
    rw [written, List.length_map]
  change LeavesReported store ((spec.plan targetNamespace).headers.map HeaderPair.artifact) _ _
    at leaves
  rw [headers] at leaves
  refine ⟨spec, read, headers, ?_, ?_, accounts.files, leaves.absent_of_created, leaves,
    leaves.present_of_skipped, ?_, accounts.texts⟩
  · rw [counted, spec.length_artifacts]
  · rw [leaves.length_eq, counted]
  · rw [accounts.skipped, Specification.skipped_of_plan complete]

namespace Prototype.Sample

/-- A store in which one leaf header of the record `a` is there and another has a directory in its
place. -/
def usedStore : MemoryStore :=
  { directories := ["record", "record/A.h"], files := [("record//AUtil.h", "kept")] }

/-- Whether a specification has one random sequence and leaves out the sequence `b`. -/
def leavesOutOne (spec : Specification .resolved) : Bool :=
  (spec.sequences.toList.countP fun sequence => sequence.kind == .random) == 1 &&
    spec.sequences.toList.filterMap RecordSequence.skipped? == [.ofKind "b" "hydrated_sequence"]

private theorem exists_compiled_used :
    ∃ spec report after, readDocument referringText = .ok spec ∧ leavesOutOne spec = true ∧
      (spec.plan "Shop").failure = none ∧
      compileInMemory usedStore "Shop" referringText = (.ok report, after) := by
  refine exists_compiled_of_isRenderable parse_referringText ?_ usedStore "Shop"
  decide +kernel

end Prototype.Sample

open Prototype.Sample in
/-- A run into a store with a leaf header and a directory in the place of another. -/
theorem used_store_accounts :
    ∃ spec report after, readDocument referringText = .ok spec ∧
      compileInMemory usedStore "Shop" referringText = (.ok report, after) ∧
      report.AccountsFor spec "Shop" usedStore after ∧ report.baseWritten.length = 7 ∧
      report.leafCreated.length + report.leafSkipped.length = 7 ∧
      "record/A.h" ∉ report.leafCreated ∧ "record/AUtil.h" ∉ report.leafCreated ∧
      report.skippedSequences = [.ofKind "b" "hydrated_sequence"] := by
  obtain ⟨spec, report, after, read, counted, -, compiled⟩ := exists_compiled_used
  obtain ⟨other, again, -, accounts⟩ := compile_accounts compiled
  obtain rfl := Except.ok.inj (read.symm.trans again)
  obtain ⟨one, out⟩ := Bool.and_eq_true_iff.mp counted
  have bases : report.baseWritten.length = 7 := by
    rw [accounts.bases, beq_iff_eq.mp one]
  have free : ∀ path, usedStore.contains path = true → path ∉ report.leafCreated := by
    intro path present listed
    rw [accounts.created path listed] at present
    cases present
  refine ⟨spec, report, after, read, compiled, accounts, bases, accounts.leaves.trans bases,
    free _ ?_, free _ ?_, accounts.sequences.trans (beq_iff_eq.mp out)⟩
  · decide +kernel
  · decide +kernel

end Recordgen
