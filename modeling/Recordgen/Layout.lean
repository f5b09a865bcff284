import Recordgen.Naming

/-! # Layout of the generated sources

Every generated class has a base header, written anew on each run, and a leaf header that inherits
from it and is written once. `Artifact` names the class and tells where its two headers stand.
-/

namespace Recordgen

/-- What a generated class is for. -/
inductive ArtifactKind where
  | config
  | recordMeta
  | record
  | util
  | setterChain
  | generator
  | subsystem
  deriving DecidableEq, Repr

namespace ArtifactKind

/-- The directory of the leaf headers. -/
def directory : ArtifactKind → String
  | config => "config"
  | recordMeta | record | util => "record"
  | setterChain => "runtime/setter"
  | generator | subsystem => "generator"

/-- What follows the record's name in the class name. -/
def suffix : ArtifactKind → String
  | recordMeta => "Meta"
  | util => "Util"
  | setterChain => "SetterChain"
  | generator => "Generator"
  | config | record | subsystem => ""

end ArtifactKind

/-- A generated class. -/
structure Artifact where
  kind : ArtifactKind
  className : String
  deriving DecidableEq, Repr

namespace Artifact

/-- The class of a kind for the record sequence with the given key. -/
def ofRecord (kind : ArtifactKind) (key : String) : Artifact :=
  ⟨kind, Naming.upperCamel key ++ kind.suffix⟩

/-- The configuration class. -/
def config : Artifact :=
  ⟨.config, "GeneratorConfig"⟩

/-- The class that registers all generators. -/
def subsystem : Artifact :=
  ⟨.subsystem, "GeneratorSubsystem"⟩

/-- The name of the base class. -/
def baseClass (artifact : Artifact) : String :=
  "Base" ++ artifact.className

/-- Where the base header stands. -/
def basePath (artifact : Artifact) : String :=
  artifact.kind.directory ++ "/base/" ++ artifact.baseClass ++ ".h"

/-- Where the leaf header stands. -/
def leafPath (artifact : Artifact) : String :=
  artifact.kind.directory ++ "/" ++ artifact.className ++ ".h"

end Artifact

/-- The directories that every run creates, whatever it writes. -/
def outputDirectories : List String :=
  ["config", "config/base", "generator", "generator/base", "io", "record", "record/base",
    "runtime/setter", "runtime/setter/base"]

end Recordgen
