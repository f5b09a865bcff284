import Recordgen.Emission.Run
import Recordgen.Proofs.MemoryStore

/-! # Runs that cannot fail on their way

On a sink whose actions all succeed (`TotalSink`), a run creates the output directories, takes the
steps of its plan one after the other and ends as the plan says, so it is a fold over the steps
(`TotalSink.run_runPlan`). A store in memory is such a sink (`memory`). To tell what a run does and
not only how it ends, the same run can be made on a store that keeps a journal of the files written
(`journaling`), which changes neither the report nor the store (`run_journaling`).
-/

namespace Recordgen

variable {σ τ α β : Type} {reported : Report}

/-- A sink whose actions all succeed, by their effects on its state. -/
structure TotalSink (σ : Type) where
  ensureDirectory : σ → (path : String) → σ
  contains : σ → (path : String) → Bool
  write : σ → (path contents : String) → σ

/-- The headers that a step writes. -/
def PlanStep.headers? : PlanStep → Option HeaderPair
  | .write headers => some headers
  | .skip _ | .warn _ => none

/-- The headers that a plan writes, in order. -/
def Plan.headers (plan : Plan) : List HeaderPair :=
  plan.steps.filterMap PlanStep.headers?

/-- How a run ends: as the plan says, with what was reported. -/
def Plan.ending (plan : Plan) (report : Report) : Except CompileError Report :=
  match plan.failure with
  | some fault => .error fault
  | none => .ok report

/-- A plan ends well exactly if it has no failure. -/
theorem Plan.ending_eq_ok_iff {plan : Plan} {report : Report} :
    plan.ending reported = .ok report ↔ plan.failure = none ∧ reported = report := by
  rw [ending]
  cases plan.failure <;> simp

/-- A plan ends with its failure, and with no other error. -/
theorem Plan.ending_eq_error_iff {plan : Plan} {fault : CompileError} :
    plan.ending reported = .error fault ↔ plan.failure = some fault := by
  rw [ending]
  cases plan.failure <;> simp

namespace TotalSink

/-- The actions on such a sink. -/
def toSink (total : TotalSink σ) : Sink (StateM σ) where
  ensureDirectory path := modify fun state => total.ensureDirectory state path
  contains path := return total.contains (← get) path
  write path contents := modify fun state => total.write state path contents

variable (total : TotalSink σ)

/-- Creates the output directories. -/
def prepare (state : σ) : σ :=
  outputDirectories.foldl total.ensureDirectory state

/-- Writes the base header of a class. -/
def writeBase (state : σ) (headers : HeaderPair) : σ :=
  total.write state headers.artifact.basePath headers.base.render

/-- Whether the leaf header of a class is kept, which is there once the base header is written. -/
def keepsLeaf (state : σ) (headers : HeaderPair) : Bool :=
  total.contains (total.writeBase state headers) headers.artifact.leafPath

/-- Writes the base header of a class, and the leaf header unless one is kept. -/
def emit (state : σ) (headers : HeaderPair) : σ :=
  if total.keepsLeaf state headers then total.writeBase state headers
  else total.write (total.writeBase state headers) headers.artifact.leafPath headers.leaf.render

/-- Writes the headers of several classes, one class after the other. -/
def emitAll (state : σ) (headers : List HeaderPair) : σ :=
  headers.foldl total.emit state

/-- Reports a step that is taken in the given state. -/
def note (state : σ) (report : Report) : PlanStep → Report
  | .write headers =>
    let report := { report with
      baseWritten := report.baseWritten ++ [headers.artifact.basePath] }
    if total.keepsLeaf state headers then
      { report with leafSkipped := report.leafSkipped ++ [headers.artifact.leafPath] }
    else { report with leafCreated := report.leafCreated ++ [headers.artifact.leafPath] }
  | .skip sequence => { report with skippedSequences := report.skippedSequences ++ [sequence] }
  | .warn warning => report.warn warning

/-- Takes a step and reports it. -/
def take (current : Report × σ) (step : PlanStep) : Report × σ :=
  (total.note current.2 current.1 step, total.emitAll current.2 step.headers?.toList)

/-- Runs a plan: the report, and the state at the end. -/
def run (plan : Plan) (state : σ) : Report × σ :=
  plan.steps.foldl total.take ({}, total.prepare state)

/-- The state at the end of a run is the one that its headers lead to. -/
theorem run_state (plan : Plan) (state : σ) :
    (total.run plan state).2 = total.emitAll (total.prepare state) plan.headers := by
  rw [run, Plan.headers]
  generalize ({} : Report) = report
  generalize total.prepare state = prepared
  induction plan.steps generalizing report prepared with
  | nil => rfl
  | cons step steps ih =>
      rw [List.foldl_cons, take, ih]
      cases step <;> rfl

/-- The base headers are reported in the order in which they are written. -/
theorem run_baseWritten (plan : Plan) (state : σ) :
    (total.run plan state).1.baseWritten =
      plan.headers.map fun headers => headers.artifact.basePath := by
  have folded : ∀ (steps : List PlanStep) (current : Report × σ),
      (steps.foldl total.take current).1.baseWritten = current.1.baseWritten ++
        (steps.filterMap PlanStep.headers?).map fun headers => headers.artifact.basePath := by
    intro steps
    induction steps with
    | nil => exact fun current => (List.append_nil _).symm
    | cons step steps ih =>
        intro current
        rw [List.foldl_cons, ih]
        cases step with
        | write headers =>
            have noted : (total.take current (.write headers)).1.baseWritten =
                current.1.baseWritten ++ [headers.artifact.basePath] := by
              simp only [take, note]
              split <;> rfl
            rw [noted, List.append_assoc]
            rfl
        | skip sequence => rfl
        | warn warning => rfl
  exact folded plan.steps _

end TotalSink

namespace Sink

theorem run_bind {action : ExceptT CompileError (StateM σ) α} {state after : σ} {value : α}
    {next : α → ExceptT CompileError (StateM σ) β} (ran : action.run state = (.ok value, after)) :
    (action >>= next).run state = (next value).run after := by
  have parts : (action >>= next).run state =
      ExceptT.bindCont next (action.run state).1 (action.run state).2 := rfl
  rw [parts, ran]
  rfl

private theorem run_forM {step : α → ExceptT CompileError (StateM σ) Unit} {effect : σ → α → σ}
    (each : ∀ value state, (step value).run state = (.ok (), effect state value))
    (values : List α) (state : σ) :
    (values.forM step).run state = (.ok (), values.foldl effect state) := by
  induction values generalizing state with
  | nil => rfl
  | cons value values ih =>
      rw [List.forM_eq_forM, List.forM_cons, run_bind (each value state), List.foldl_cons]
      exact ih _

private theorem run_foldlM {step : β → α → ExceptT CompileError (StateM σ) β}
    {effect : β × σ → α → β × σ} (each : ∀ result value state, (step result value).run state =
      (.ok (effect (result, state) value).1, (effect (result, state) value).2))
    (values : List α) (start : β × σ) :
    (values.foldlM step start.1).run start.2 =
      (.ok (values.foldl effect start).1, (values.foldl effect start).2) := by
  induction values generalizing start with
  | nil => rfl
  | cons value values ih =>
      rw [List.foldlM_cons, run_bind (each start.1 value start.2), List.foldl_cons]
      exact ih _

end Sink

namespace TotalSink

open Sink (run_bind run_forM run_foldlM)

variable (total : TotalSink σ)

private theorem run_takeStep (report : Report) (step : PlanStep) (state : σ) :
    (total.toSink.takeStep report step).run state =
      (.ok (total.take (report, state) step).1, (total.take (report, state) step).2) := by
  cases step with
  | write headers =>
      have wrote : (total.toSink.write headers.artifact.basePath headers.base.render).run state =
        (.ok (), total.writeBase state headers) := rfl
      have looked : (liftM (total.toSink.contains headers.artifact.leafPath) :
          ExceptT CompileError (StateM σ) Bool).run (total.writeBase state headers) =
        (.ok (total.keepsLeaf state headers), total.writeBase state headers) := rfl
      rw [Sink.takeStep, Sink.writeHeaders, run_bind wrote, run_bind looked]
      simp only [take, note, PlanStep.headers?, Option.toList_some, emitAll, List.foldl_cons,
        List.foldl_nil, emit]
      cases total.keepsLeaf state headers <;> rfl
  | skip sequence => rfl
  | warn warning => rfl

/-- **Runs.** A run on a sink whose actions all succeed ends as its plan says. -/
theorem run_runPlan (plan : Plan) (state : σ) :
    (total.toSink.runPlan plan).run state =
      (plan.ending (total.run plan state).1, (total.run plan state).2) := by
  have directories := run_forM (fun path state => rfl :
    ∀ path state, (total.toSink.ensureDirectory path).run state =
      (.ok (), total.ensureDirectory state path)) outputDirectories state
  have steps := run_foldlM total.run_takeStep plan.steps ({}, total.prepare state)
  rw [Sink.runPlan, run_bind directories]
  refine (run_bind steps).trans ?_
  rw [Plan.ending, run]
  cases plan.failure <;> rfl

/-- A run fails with the error of its plan and no other. -/
theorem runPlan_eq_error_iff {plan : Plan} {state : σ} {fault : CompileError} :
    ((total.toSink.runPlan plan).run state).1 = .error fault ↔ plan.failure = some fault := by
  rw [run_runPlan, Plan.ending_eq_error_iff]

/-- A sink that can be seen as another one runs like it. -/
theorem run_view {total : TotalSink σ} {other : TotalSink τ} (view : σ → τ)
    (ensured : ∀ state path, view (total.ensureDirectory state path) =
      other.ensureDirectory (view state) path)
    (contained : ∀ state path, total.contains state path = other.contains (view state) path)
    (written : ∀ state path contents, view (total.write state path contents) =
      other.write (view state) path contents)
    (plan : Plan) (state : σ) :
    other.run plan (view state) =
      ((total.run plan state).1, view (total.run plan state).2) := by
  have base : ∀ state headers, view (total.writeBase state headers) =
      other.writeBase (view state) headers := fun state headers => written _ _ _
  have keeps : ∀ state headers, total.keepsLeaf state headers =
      other.keepsLeaf (view state) headers := by
    intro state headers
    rw [keepsLeaf, contained, base]
    rfl
  have emitted : ∀ state headers, view (total.emit state headers) =
      other.emit (view state) headers := by
    intro state headers
    rw [emit, emit, ← keeps, apply_ite view, written, base]
  have prepared : ∀ state, view (total.prepare state) = other.prepare (view state) := by
    intro state
    rw [prepare, prepare]
    induction outputDirectories generalizing state with
    | nil => rfl
    | cons path paths ih => rw [List.foldl_cons, List.foldl_cons, ih, ensured]
  have taken : ∀ current step, other.take (current.1, view current.2) step =
      ((total.take current step).1, view (total.take current step).2) := by
    intro current step
    cases step with
    | write headers =>
        simp only [take, note, ← keeps]
        exact congrArg (Prod.mk _) (emitted current.2 headers).symm
    | skip sequence => rfl
    | warn warning => rfl
  rw [run, run, ← prepared]
  generalize ({} : Report) = report
  generalize total.prepare state = start
  induction plan.steps generalizing report start with
  | nil => rfl
  | cons step steps ih =>
      rw [List.foldl_cons, List.foldl_cons, taken (report, start)]
      exact ih _ _

end TotalSink

/-- A store in memory, as a sink whose actions all succeed. -/
def memory : TotalSink MemoryStore where
  ensureDirectory := MemoryStore.ensureDirectory
  contains := MemoryStore.contains
  write := MemoryStore.write

theorem memory_toSink : memory.toSink = memorySink :=
  rfl

theorem memory_contains (store : MemoryStore) (path : String) :
    memory.contains store path = store.contains path :=
  rfl

/-- A file that was written. -/
structure FileWrite where
  path : String
  contents : String
  /-- What the file held before. -/
  before : Option String
  deriving DecidableEq, Repr

/-- A store in memory with the files written to it, in order. -/
structure Journal where
  store : MemoryStore
  writes : List FileWrite := []

/-- A store in memory that keeps a journal. -/
def journaling : TotalSink Journal where
  ensureDirectory journal path := { journal with store := journal.store.ensureDirectory path }
  contains journal path := journal.store.contains path
  write journal path contents :=
    ⟨journal.store.write path contents,
      journal.writes ++ [⟨path, contents, journal.store.get? path⟩]⟩

theorem journaling_contains (journal : Journal) (path : String) :
    journaling.contains journal path = journal.store.contains path :=
  rfl

/-- Keeping a journal changes neither the report nor the store. -/
theorem run_journaling (plan : Plan) (journal : Journal) :
    memory.run plan journal.store =
      ((journaling.run plan journal).1, (journaling.run plan journal).2.store) :=
  TotalSink.run_view Journal.store (fun _ _ => rfl) (fun _ _ => rfl) (fun _ _ _ => rfl) plan journal

end Recordgen
