import Recordgen.KeyMap
import Recordgen.Layout
import Recordgen.Source.Step

/-! # Header files

A header opens with a banner, an include guard and its includes, and closes the guard at its end.
Its body stands in the target namespace.
-/

namespace Recordgen

/-- The texts of a list in ascending order, each once. -/
def ascending (texts : List String) : List String :=
  (texts.foldl (fun set text => set.insert text ()) ({} : KeyMap Unit)).entries.map Prod.fst

/-- The namespace of the runtime library. -/
def runtimeNamespace : String :=
  "Runtime"

/-- The banner of a base header. -/
def baseBanner : String :=
  "Generated by synthforge; regenerated on every compile, do not edit."

/-- The banner of a leaf header. -/
def leafBanner : String :=
  "Generated once by synthforge; edit freely."

/-- The identifiers of a namespace such as `A::B`. -/
def namespaceParts (name : String) : List String :=
  (Text.splitScopes name.toList).map String.ofList

/-- Opens the parts of a namespace, outermost first. -/
def openNamespace (name : String) : List Step :=
  (namespaceParts name).map Step.enterNamespace ++ [.blank]

/-- Closes the parts of a namespace, innermost first. -/
def closeNamespace (name : String) : List Step :=
  (namespaceParts name).reverse.map Step.leaveNamespace ++ [.blank]

/-- A header file. -/
structure Header where
  /-- Where the header stands, as other headers include it. -/
  path : String
  banner : String
  /-- Headers of the runtime library. -/
  runtimeIncludes : List String := []
  /-- Headers that are generated too. -/
  localIncludes : List String := []
  targetNamespace : String
  body : List Step := []

namespace Header

/-- The steps of an include. -/
def includeStep (path : String) : Step :=
  .line s!"#include \"{path}\""

/-- The includes of a header: those of the runtime first, each group in ascending order. -/
def includes (header : Header) : List Step :=
  let runtimeGroup := (ascending header.runtimeIncludes).map includeStep
  let localGroup := (ascending header.localIncludes).map includeStep
  if runtimeGroup.isEmpty || localGroup.isEmpty then runtimeGroup ++ localGroup
  else runtimeGroup ++ [.blank] ++ localGroup

/-- What precedes the body. -/
def opening (header : Header) : List Step :=
  let guard := Naming.includeGuard header.path
  [.line s!"// {header.banner}", .blank, .line s!"#ifndef {guard}", .line s!"#define {guard}",
    .blank] ++
    header.includes ++
    [.blank, .line s!"using namespace {runtimeNamespace};", .blank] ++
    openNamespace header.targetNamespace

/-- What follows the body. -/
def closing (header : Header) : List Step :=
  closeNamespace header.targetNamespace ++
    [.line s!"#endif /* {Naming.includeGuard header.path} */"]

/-- The steps that write a header. -/
def steps (header : Header) : List Step :=
  header.opening ++ header.body ++ header.closing

/-- The text of a header. -/
def render (header : Header) : String :=
  Step.render header.steps

end Header

/-- The base and the leaf header of a generated class. -/
structure HeaderPair where
  artifact : Artifact
  base : Header
  leaf : Header

/-- A parameter of a constructor. -/
structure ConstructorParameter where
  type : String
  name : String

/-- The parameters as a signature lists them. -/
def parameterList (parameters : List ConstructorParameter) : String :=
  ", ".intercalate (parameters.map fun parameter => s!"{parameter.type} {parameter.name}")

/-- The class of a leaf: it derives from the base class and hands its constructor parameters on. -/
def leafClass (artifact : Artifact) (parameters : List ConstructorParameter)
    (members : List Step) : List Step :=
  let className := artifact.className
  let parent := artifact.baseClass
  let forwarded := ", ".intercalate (parameters.map ConstructorParameter.name)
  .line s!"class {className} : public {parent}" ::
    Step.declarationBraces
      (Step.accessLabel "public:" ++
        Step.constructor s!"{className}({parameterList parameters}) :"
          [.line s!"{parent}({forwarded})"] ++
        [.blank] ++ Step.destructor className ++ members) ++
    [.blank]

/-- A leaf header with the given body. -/
def leafHeader (artifact : Artifact) (targetNamespace : String) (body : List Step) : Header where
  path := artifact.leafPath
  banner := leafBanner
  localIncludes := [artifact.basePath]
  targetNamespace := targetNamespace
  body := body

/-- The leaf header of a class that hands its constructor parameters on. -/
def forwardingLeaf (artifact : Artifact) (targetNamespace : String)
    (parameters : List ConstructorParameter) (members : List Step) : Header :=
  leafHeader artifact targetNamespace (leafClass artifact parameters members)

end Recordgen
