import Recordgen.Emission.Plan
import Recordgen.Store.Memory

/-! # Running a plan

A plan is run on a sink, which is where files go: a store in memory or a directory. First the output
directories are created. A base header is written in any case, a leaf header only where there is
nothing yet. What was written before an error stays.
-/

namespace Recordgen

/-- Where files go, with the effects that writing has. -/
structure Sink (m : Type → Type) where
  ensureDirectory : (path : String) → ExceptT CompileError m Unit
  contains : (path : String) → m Bool
  write : (path contents : String) → ExceptT CompileError m Unit

namespace Sink

variable {m : Type → Type} [Monad m]

/-- Writes the base header of a class, and its leaf header where there is none. -/
def writeHeaders (sink : Sink m) (report : Report) (headers : HeaderPair) :
    ExceptT CompileError m Report := do
  let base := headers.artifact.basePath
  let leaf := headers.artifact.leafPath
  sink.write base headers.base.render
  let report := { report with baseWritten := report.baseWritten ++ [base] }
  if ← sink.contains leaf then
    return { report with leafSkipped := report.leafSkipped ++ [leaf] }
  sink.write leaf headers.leaf.render
  return { report with leafCreated := report.leafCreated ++ [leaf] }

/-- Takes a step of a plan and reports it. -/
def takeStep (sink : Sink m) (report : Report) : PlanStep → ExceptT CompileError m Report
  | .write headers => sink.writeHeaders report headers
  | .skip sequence =>
    return { report with skippedSequences := report.skippedSequences ++ [sequence] }
  | .warn warning => return report.warn warning

/-- Runs a plan. -/
def runPlan (sink : Sink m) (plan : Plan) : ExceptT CompileError m Report := do
  outputDirectories.forM sink.ensureDirectory
  let report ← plan.steps.foldlM sink.takeStep {}
  match plan.failure with
  | some fault => throw fault
  | none => return report

end Sink

/-- The sink that writes to a store in memory; it never fails. -/
def memorySink : Sink (StateM MemoryStore) where
  ensureDirectory path := modify fun store => store.ensureDirectory path
  contains path := return (← get).contains path
  write path contents := modify fun store => store.write path contents

end Recordgen
