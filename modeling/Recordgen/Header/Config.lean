import Recordgen.Chain.Constructor
import Recordgen.Source.Header

/-! # Configuration headers

The configuration class sets the defaults of the parameters and registers the functions and the
enumerations.
-/

namespace Recordgen

namespace Specification

/-- Where the constructors of functions and enumerations are called. -/
def configScope (spec : Specification .resolved) : ConstructorScope where
  spec := spec
  config := "(*this)"

/-- The arguments of a registered component: its key, then those of its kind. -/
def registrationArguments (spec : Specification .resolved) (component : Component .resolved) :
    Except CompileError String := do
  let arguments ← spec.configScope.argumentTexts component
  return ", ".intercalate (Text.Quoted.string component.key :: arguments)

/-- Sets the default of a parameter. -/
def parameterDefault (parameter : Parameter) : Step :=
  .line
    s!"setDefault({Text.Quoted.string parameter.key}, {Text.Quoted.string parameter.value});"

/-- Registers a function. -/
def functionRegistration (spec : Specification .resolved) (id : ComponentId) :
    Except CompileError Step := do
  let function := spec.component id
  let arguments ← spec.registrationArguments function
  let className ← function.functionClass
  return .line s!"function(new {className}({arguments}));"

/-- Registers an enumeration. -/
def enumSetRegistration (spec : Specification .resolved) (id : ComponentId) :
    Except CompileError Step := do
  let enumSet := spec.component id
  let arguments ← spec.registrationArguments enumSet
  return .line s!"enumSet(new {enumSet.kind.entry.className}({arguments}));"

/-- The headers of the configuration class. -/
def configHeaders (spec : Specification .resolved) (targetNamespace : String) :
    Except CompileError HeaderPair := do
  let artifact := Artifact.config
  let className := artifact.baseClass
  let functions ← spec.functions.values.mapM spec.functionRegistration
  let enumSets ← spec.enumSets.values.mapM spec.enumSetRegistration
  return {
    artifact := artifact
    base :=
      { path := artifact.basePath
        banner := baseBanner
        runtimeIncludes := "config/AbstractGeneratorConfig.h" ::
          (spec.functions.values ++ spec.enumSets.values).map fun id =>
            (spec.component id).kind.entry.header
        targetNamespace := targetNamespace
        body := .line s!"class {className} : public AbstractGeneratorConfig" ::
          Step.declarationBraces
            (Step.accessLabel "public:" ++
              Step.constructor s!"{className}(const string& configPath) :"
                [.line "AbstractGeneratorConfig(configPath)"] ++
              [.blank] ++ Step.destructor className ++
              [.blank] ++ Step.accessLabel "protected:" ++
              Step.function "virtual void configureParameters()"
                (spec.parameters.values.map parameterDefault) ++
              [.blank] ++ Step.function "virtual void configureFunctions()" functions ++
              [.blank] ++ Step.function "virtual void configureSets()" enumSets) ++
          [.blank] }
    leaf := forwardingLeaf artifact targetNamespace [⟨"const string&", "configPath"⟩] [] }

end Specification

end Recordgen
