import Recordgen.Header.Config
import Recordgen.Header.Generator
import Recordgen.Header.Record
import Recordgen.Header.RecordMeta
import Recordgen.Header.SetterChain
import Recordgen.Header.Subsystem
import Recordgen.Header.Util
import Recordgen.Report.Basic

/-! # Plans

What a run writes does not depend on where it is written. It is laid down beforehand in a plan: the
configuration, then all headers of one sequence after the other, then the subsystem. When the
headers of a sequence cannot be rendered, the plan ends in front of that sequence.
-/

namespace Recordgen

/-- One step of a plan. -/
inductive PlanStep where
  | write (headers : HeaderPair)
  | skip (sequence : SkippedSequence)
  | warn (warning : Warning)

/-- What a run does, and the error it ends with. -/
structure Plan where
  steps : List PlanStep
  failure : Option CompileError := none

namespace Plan

/-- Puts steps in front of a plan. -/
def precede (steps : List PlanStep) (plan : Plan) : Plan :=
  { plan with steps := steps ++ plan.steps }

end Plan

namespace RecordContext

/-- The warnings about fields that keep their default values. -/
def warnings (context : RecordContext) : List Warning :=
  (context.fields.filter fun field =>
    !field.implicit && !field.derived && field.setter.isNone).map fun field =>
      .noSetter field.name context.sequence.key

/-- The headers of a random sequence. -/
def headers (context : RecordContext) : Except CompileError (List HeaderPair) := do
  let names := ChainNames.assign context.spec context.sequence
  let metaHeaders ← context.metaHeaders
  let record ← context.recordHeaders
  let chain ← context.chainHeaders names
  let generator ← context.generatorHeaders
  return [metaHeaders, record, context.utilHeaders, chain, generator]

end RecordContext

namespace Specification

/-- The steps for a sequence. -/
def sequenceSteps (spec : Specification .resolved) (targetNamespace : String)
    (sequence : RecordSequence) : Except CompileError (List PlanStep) :=
  match sequence.kind with
  | .random => do
    let context : RecordContext := ⟨spec, sequence, targetNamespace⟩
    return context.warnings.map PlanStep.warn ++ (← context.headers).map PlanStep.write
  | .unsupported element => .ok [.skip (.ofKind sequence.key element)]

/-- The plan for sequences, with `final` steps after the last one. -/
def planSequences (spec : Specification .resolved) (targetNamespace : String)
    (final : List PlanStep) : List RecordSequence → Plan
  | [] => { steps := final }
  | sequence :: rest =>
    match spec.sequenceSteps targetNamespace sequence with
    | .ok steps => (spec.planSequences targetNamespace final rest).precede steps
    | .error fault => { steps := [], failure := some fault }

/-- The plan for a specification. -/
def plan (spec : Specification .resolved) (targetNamespace : String) : Plan :=
  match spec.configHeaders targetNamespace with
  | .error fault => { steps := [], failure := some fault }
  | .ok config =>
    let sequences := spec.sequences.toList
    let subsystem := subsystemHeaders sequences targetNamespace
    (spec.planSequences targetNamespace [.write subsystem] sequences).precede [.write config]

end Specification

end Recordgen
