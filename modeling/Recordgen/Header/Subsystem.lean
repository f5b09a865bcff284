import Recordgen.Source.Header
import Recordgen.Specification.Basic
import Recordgen.Text.Quoted

/-! # Subsystem headers

The subsystem class registers a generator for every random sequence.
-/

namespace Recordgen

/-- The generator class of a sequence. -/
def RecordSequence.generator (sequence : RecordSequence) : Artifact :=
  .ofRecord .generator sequence.key

/-- Registers the generator of a sequence. -/
def RecordSequence.generatorRegistration (targetNamespace : String) (sequence : RecordSequence) :
    Step :=
  let className := sequence.generator.className
  .line s!"registerGenerator<{targetNamespace}::{className}>({Text.Quoted.string sequence.key});"

/-- The headers of the subsystem class. -/
def subsystemHeaders (sequences : List RecordSequence) (targetNamespace : String) : HeaderPair :=
  let artifact := Artifact.subsystem
  let className := artifact.baseClass
  let randoms := sequences.filter fun sequence => sequence.kind == .random
  { artifact := artifact
    base :=
      { path := artifact.basePath
        banner := baseBanner
        runtimeIncludes := ["generator/AbstractGeneratorSubsystem.h"]
        localIncludes := Artifact.config.leafPath ::
          randoms.map fun sequence => sequence.generator.leafPath
        targetNamespace := targetNamespace
        body := .line
            s!"class {className} : public AbstractGeneratorSubsystem<GeneratorConfig>" ::
          Step.declarationBraces
            (Step.accessLabel "public:" ++
              Step.constructor s!"{className}(GeneratorConfig& config) :"
                [.line "AbstractGeneratorSubsystem<GeneratorConfig>(config)"] ++
              [.blank] ++ Step.destructor className ++
              [.blank] ++ Step.accessLabel "protected:" ++
              Step.function "virtual void registerGenerators()"
                (randoms.map (RecordSequence.generatorRegistration targetNamespace))) ++
          [.blank] }
    leaf := forwardingLeaf artifact targetNamespace [⟨"GeneratorConfig&", "config"⟩] [] }

end Recordgen
