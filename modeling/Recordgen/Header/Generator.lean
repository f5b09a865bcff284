import Recordgen.Chain.Constructor
import Recordgen.Header.Basic

/-! # Generator headers

The generator of a sequence estimates how many records there are and registers the task that
iterates over them.
-/

namespace Recordgen.RecordContext

/-- The component that estimates the number of records. -/
def estimator (context : RecordContext) : Except CompileError (Component .resolved) :=
  match context.sequence.estimator with
  | some id => .ok (context.spec.component id)
  | none => .error (.rendering (.noEstimator context.sequence.key))

/-- The constructor call of a component outside of the setter chain. -/
def plainArguments (context : RecordContext) (config : String) (component : Component .resolved) :
    Except CompileError String := do
  let scope : ConstructorScope := { spec := context.spec, config := config }
  return ", ".intercalate (← scope.argumentTexts component)

/-- Registers the task that iterates over the records. -/
def iteratorTask (context : RecordContext) (task : Component .resolved) :
    Except CompileError Step := do
  let arguments ← context.plainArguments "_config" task
  return .line
    s!"registerTask(new {task.kind.entry.className}<{context.record}>({arguments}));"

/-- The headers of the generator. -/
def generatorHeaders (context : RecordContext) : Except CompileError HeaderPair := do
  let artifact := context.artifact .generator
  let className := artifact.baseClass
  let record := context.record
  let estimator ← context.estimator
  let tasks := context.sequence.sequenceIterator.toList.map context.spec.component
  let estimatorArguments ← context.plainArguments "config" estimator
  let taskSteps ← tasks.mapM context.iteratorTask
  return {
    artifact := artifact
    base :=
      { path := artifact.basePath
        banner := baseBanner
        runtimeIncludes := "generator/RandomSetGenerator.h" :: estimator.kind.entry.header ::
          tasks.map fun task => task.kind.entry.header
        localIncludes := [Artifact.config.leafPath, (context.artifact .util).leafPath,
          (context.artifact .setterChain).leafPath]
        targetNamespace := context.targetNamespace
        body := .line s!"class {className} : public RandomSetGenerator<{record}>" ::
          Step.declarationBraces
            (Step.accessLabel "public:" ++
              [.line s!"typedef RecordTraits<{record}>::SetterChainType SetterChainType;",
                .blank] ++
              Step.constructor s!"{className}(const string& name, GeneratorConfig& config) :"
                [.line s!"RandomSetGenerator<{record}>(name, config),",
                  .line "_config(config),",
                  .line s!"_cardinalityEstimator({estimatorArguments})"] ++
              [.blank] ++ Step.destructor className ++
              [.blank] ++ Step.function "virtual void prepare()" taskSteps ++
              [.blank] ++ Step.function "virtual I64u cardinality()"
                [.line "return _cardinalityEstimator.cardinality();"] ++
              [.blank] ++ Step.function "SetterChainType setterChain()"
                [.line "return SetterChainType(_config);"] ++
              [.blank] ++ Step.accessLabel "protected:" ++
              [.line "GeneratorConfig& _config;",
                .line s!"{estimator.kind.entry.className} _cardinalityEstimator;"]) ++
          [.blank] }
    leaf := forwardingLeaf artifact context.targetNamespace
      [⟨"const string&", "name"⟩, ⟨"GeneratorConfig&", "config"⟩] [] }

end Recordgen.RecordContext
